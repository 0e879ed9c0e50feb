import Myftpd.Trim
import Myftpd.Lib.LastWins

/-!
# parseconf.cpp: the configuration file

A setting is `key=value`.  The key is looked up in three tables, for strings, booleans and unsigned numbers,
and the value is stored in the tunable that the table names.

* `parseconfLoadSetting`, `parseconfLoadFile`   the two functions, on the tunables;
* `loadSetting_eq`    a setting that fits its arrays: the two parts, and `store` on them;
* `unchanged_iff`     when a setting that is not well formed leaves the tunables as they were;
* `loadFile_eq`       a file is the `store` of its settings, one after the other;
* `store_foldlM`      it is loaded when no string is set a second time;
* `last_setting_wins`  then every tunable has the value of the last setting for its key.
-/

namespace Myftpd
open CMem

/-! ## tunable.cpp -/

inductive BoolVar where
  | pasvEnable | portEnable
  deriving DecidableEq, Repr

inductive UintVar where
  | listenPort | maxClients | maxPerIp | acceptTimeout | connectTimeout | idleSessionTimeout
  | dataConnectionTimeout | localUmask | uploadMaxRate | downloadMaxRate
  deriving DecidableEq, Repr

inductive StrVar where
  | listenAddress
  deriving DecidableEq, Repr

/-- the global variables `tunable_…`; the tables of the source point to them -/
@[ext] structure Tunables where
  bool : BoolVar → Int
  uint : UintVar → Nat
  str : StrVar → Option (List UInt8)

/-- the values that tunable.cpp gives them -/
def tunables : Tunables where
  bool := fun _ => 1
  uint
    | .listenPort => 21
    | .maxClients => 2000
    | .maxPerIp => 50
    | .acceptTimeout => 60
    | .connectTimeout => 60
    | .idleSessionTimeout => 300
    | .dataConnectionTimeout => 300
    | .localUmask => 0o77
    | .uploadMaxRate => 0
    | .downloadMaxRate => 0
  str := fun _ => none

/-! ## parseconf.cpp -/

def parseconfBoolArray : List (List UInt8 × BoolVar) :=
  [(ascii "pasv_enable", .pasvEnable),
   (ascii "port_enable", .portEnable)]

def parseconfUintArray : List (List UInt8 × UintVar) :=
  [(ascii "listen_port", .listenPort),
   (ascii "max_clients", .maxClients),
   (ascii "max_per_ip", .maxPerIp),
   (ascii "accept_timeout", .acceptTimeout),
   (ascii "connect_timeout", .connectTimeout),
   (ascii "idle_session_timeout", .idleSessionTimeout),
   (ascii "data_connection_timeout", .dataConnectionTimeout),
   (ascii "local_umask", .localUmask),
   (ascii "upload_max_rate", .uploadMaxRate),
   (ascii "download_max_rate", .downloadMaxRate)]

def parseconfStrArray : List (List UInt8 × StrVar) :=
  [(ascii "listen_address", .listenAddress)]

/-- the number an unsigned setting takes from its text -/
def uintValue (value : List UInt8) : Nat :=
  if value.head? = some 48 then strOctalToUint value else wrapU32 (atoi value)

/-- the boolean, `none` for any text but 0 and 1 -/
def boolValue (value : List UInt8) : Option Int :=
  if value = ascii "1" then some 1 else if value = ascii "0" then some 0 else none

/-- the three searches, one after the other -/
def store (t : Tunables) (key value : List UInt8) : Res Tunables :=
  match parseconfStrArray.lookup key with
  | some p => match t.str p with
    -- `free((char*)p)`: the pointer is that of the variable, not of the string in it
    | some _ => .error (.crash .badFree)
    | none => .ok { t with str := Function.update t.str p (some value) }
  | none => match parseconfBoolArray.lookup key with
    | some p => match boolValue value with
      | some b => .ok { t with bool := Function.update t.bool p b }
      | none => .ok t
    | none => match parseconfUintArray.lookup key with
      | some p => .ok { t with uint := Function.update t.uint p (uintValue value) }
      | none => .ok t

/-- `str_split(setting, key, value, '=')` into two zeroed arrays of 128 bytes -/
def split128 (setting : List UInt8) : Option (List UInt8 × List UInt8) :=
  (strSplit (beside setting (setting.length + 1) 128) 0 (setting.length + 1) (setting.length + 1 + 128) 61).map
    fun m => (cstrAt m (setting.length + 1), cstrAt m (setting.length + 1 + 128))

def parseconfLoadSetting (setting : List UInt8) (t : Tunables) : Res Tunables :=
  match split128 setting with
  | none => .error (.crash .overlap)
  | some (key, value) => if value = [] then .ok t else store t key value

/-- `fgets(s, size, fp)`: a line with its newline, or as much of it as fits; `none` at the end of the file -/
def fgets (size : Nat) (file : List UInt8) : Option (List UInt8 × List UInt8) :=
  if file = [] then none
  else
    let part := file.take (size - 1)
    let line := if LF ∈ part then splitFst part LF ++ [LF] else part
    some (line, file.drop line.length)

/-- the loop of `parseconf_load_file`; `continue` leaves the line in the array -/
def loadLoop : Nat → Mem → List UInt8 → Tunables → Res Tunables
  | 0, _, _, _ => .error .spin
  | fuel+1, m, file, t =>
    match fgets 1024 file with
    | none => .ok t
    | some (line, file) =>
      let m := poke m 0 (line ++ [0])
      let settingLine := cstrAt m 0
      if settingLine = [] ∨ settingLine.head? = some 35 ∨ strAllSpace settingLine = true then loadLoop fuel m file t
      else do
        let t ← parseconfLoadSetting (cstrAt (strTrimCrlf m 0) 0) t
        loadLoop fuel (List.replicate 1024 0) file t

/-- a round for every byte of the file, and the one that finds its end -/
def parseconfLoadFile (file : List UInt8) (t : Tunables) : Res Tunables :=
  loadLoop (file.length + 1) (List.replicate 1024 0) file t

/-! ## the tables -/

theorem str_keys : (parseconfStrArray.map Prod.fst).Nodup ∧ (parseconfStrArray.map Prod.snd).Nodup := by decide
theorem bool_keys : (parseconfBoolArray.map Prod.fst).Nodup ∧ (parseconfBoolArray.map Prod.snd).Nodup := by decide
theorem uint_keys : (parseconfUintArray.map Prod.fst).Nodup ∧ (parseconfUintArray.map Prod.snd).Nodup := by decide

theorem keys_apart : (∀ a ∈ parseconfStrArray, ∀ b ∈ parseconfBoolArray, a.1 ≠ b.1) ∧
    (∀ a ∈ parseconfStrArray, ∀ b ∈ parseconfUintArray, a.1 ≠ b.1) ∧
      ∀ a ∈ parseconfBoolArray, ∀ b ∈ parseconfUintArray, a.1 ≠ b.1 := by
  decide

theorem bool_key (p : BoolVar) : ∃ key, (key, p) ∈ parseconfBoolArray := by
  cases p <;> simp [parseconfBoolArray]

theorem uint_key (p : UintVar) : ∃ key, (key, p) ∈ parseconfUintArray := by
  cases p <;> simp [parseconfUintArray]

theorem str_key (p : StrVar) : ∃ key, (key, p) ∈ parseconfStrArray := by
  cases p
  simp [parseconfStrArray]

/-- the tunables with the setting, whatever the string was before -/
def assign (t : Tunables) (key value : List UInt8) : Tunables :=
  match parseconfStrArray.lookup key with
  | some p => { t with str := Function.update t.str p (some value) }
  | none => match parseconfBoolArray.lookup key with
    | some p => { t with bool := Function.update t.bool p ((boolValue value).getD (t.bool p)) }
    | none => match parseconfUintArray.lookup key with
      | some p => { t with uint := Function.update t.uint p (uintValue value) }
      | none => t

section
variable {key k value : List UInt8} {t : Tunables}

theorem assign_of_str {p : StrVar} (h : (key, p) ∈ parseconfStrArray) :
    assign t key value = { t with str := Function.update t.str p (some value) } := by
  unfold assign
  rw [LastWins.lookup_of_mem str_keys.1 h]

theorem assign_of_bool {p : BoolVar} (h : (key, p) ∈ parseconfBoolArray) :
    assign t key value = { t with bool := Function.update t.bool p ((boolValue value).getD (t.bool p)) } := by
  have hs : parseconfStrArray.lookup key = none := by
    rw [List.lookup_eq_none_iff]
    intro a ha
    exact bne_iff_ne.mpr (keys_apart.1 a ha _ h).symm
  unfold assign
  rw [hs, LastWins.lookup_of_mem bool_keys.1 h]

theorem assign_of_uint {p : UintVar} (h : (key, p) ∈ parseconfUintArray) :
    assign t key value = { t with uint := Function.update t.uint p (uintValue value) } := by
  have hs : parseconfStrArray.lookup key = none := by
    rw [List.lookup_eq_none_iff]
    intro a ha
    exact bne_iff_ne.mpr (keys_apart.2.1 a ha _ h).symm
  have hb : parseconfBoolArray.lookup key = none := by
    rw [List.lookup_eq_none_iff]
    intro a ha
    exact bne_iff_ne.mpr (keys_apart.2.2 a ha _ h).symm
  unfold assign
  rw [hs, hb, LastWins.lookup_of_mem uint_keys.1 h]

/-- **What a setting does**: the variable of its key, or nothing. -/
theorem assign_cases (t : Tunables) (key value : List UInt8) :
    (∃ p, (key, p) ∈ parseconfStrArray ∧
      assign t key value = { t with str := Function.update t.str p (some value) }) ∨
    (∃ p, (key, p) ∈ parseconfBoolArray ∧
      assign t key value = { t with bool := Function.update t.bool p ((boolValue value).getD (t.bool p)) }) ∨
    (∃ p, (key, p) ∈ parseconfUintArray ∧
      assign t key value = { t with uint := Function.update t.uint p (uintValue value) }) ∨
    (parseconfStrArray.lookup key = none ∧ parseconfBoolArray.lookup key = none ∧
      parseconfUintArray.lookup key = none ∧ assign t key value = t) := by
  cases hs : parseconfStrArray.lookup key with
  | some p =>
    have hp := LastWins.mem_of_lookup hs
    exact .inl ⟨p, hp, assign_of_str hp⟩
  | none =>
    cases hb : parseconfBoolArray.lookup key with
    | some p =>
      have hp := LastWins.mem_of_lookup hb
      exact .inr (.inl ⟨p, hp, assign_of_bool hp⟩)
    | none =>
      cases hu : parseconfUintArray.lookup key with
      | some p =>
        have hp := LastWins.mem_of_lookup hu
        exact .inr (.inr (.inl ⟨p, hp, assign_of_uint hp⟩))
      | none =>
        refine .inr (.inr (.inr ⟨rfl, rfl, rfl, ?_⟩))
        unfold assign
        rw [hs, hb, hu]

/-- **A setting is stored**, unless it is for a string that is there already. -/
theorem store_ok (h : ∀ p, (key, p) ∈ parseconfStrArray → t.str p = none) :
    store t key value = .ok (assign t key value) := by
  unfold store assign
  cases hs : parseconfStrArray.lookup key with
  | some p =>
    dsimp only
    rw [h p (LastWins.mem_of_lookup hs)]
  | none =>
    cases parseconfBoolArray.lookup key with
    | some p =>
      dsimp only
      cases boolValue value with
      | some b => rfl
      | none => simp
    | none =>
      dsimp only
      cases parseconfUintArray.lookup key <;> rfl

theorem store_bad {p : StrVar} (h : (key, p) ∈ parseconfStrArray) (hs : t.str p ≠ none) :
    store t key value = .error (.crash .badFree) := by
  obtain ⟨v, hv⟩ := Option.ne_none_iff_exists'.mp hs
  unfold store
  simp only [LastWins.lookup_of_mem str_keys.1 h, hv]

/-- the variable of the key `k`, after a setting for the key `key` -/
theorem assign_str {p : StrVar} (h : (k, p) ∈ parseconfStrArray) :
    (assign t key value).str p = if key = k then some value else t.str p := by
  by_cases hk : key = k
  · subst hk
    rw [if_pos rfl, assign_of_str h]
    show Function.update t.str p (some value) p = some value
    rw [Function.update_self]
  · rw [if_neg hk]
    obtain ⟨q, hq, he⟩ | ⟨q, hq, he⟩ | ⟨q, hq, he⟩ | ⟨-, -, -, he⟩ := assign_cases t key value
    · have hpq : p ≠ q := fun e => hk ((LastWins.lookup_iff str_keys.1 str_keys.2 h).mp
        (e ▸ LastWins.lookup_of_mem str_keys.1 hq))
      rw [he]
      show Function.update t.str q (some value) p = t.str p
      rw [Function.update_of_ne hpq]
    all_goals rw [he]

theorem assign_bool {p : BoolVar} (h : (k, p) ∈ parseconfBoolArray) :
    (assign t key value).bool p = if key = k then (boolValue value).getD (t.bool p) else t.bool p := by
  by_cases hk : key = k
  · rw [if_pos hk, hk, assign_of_bool h]
    exact Function.update_self ..
  · rw [if_neg hk]
    obtain ⟨q, hq, he⟩ | ⟨q, hq, he⟩ | ⟨q, hq, he⟩ | ⟨-, -, -, he⟩ := assign_cases t key value
    case inr.inl =>
      have hpq : p ≠ q := fun e => hk ((LastWins.lookup_iff bool_keys.1 bool_keys.2 h).mp
        (e ▸ LastWins.lookup_of_mem bool_keys.1 hq))
      rw [he]
      exact Function.update_of_ne hpq ..
    all_goals rw [he]

theorem assign_uint {p : UintVar} (h : (k, p) ∈ parseconfUintArray) :
    (assign t key value).uint p = if key = k then uintValue value else t.uint p := by
  by_cases hk : key = k
  · rw [if_pos hk, hk, assign_of_uint h]
    exact Function.update_self ..
  · rw [if_neg hk]
    obtain ⟨q, hq, he⟩ | ⟨q, hq, he⟩ | ⟨q, hq, he⟩ | ⟨-, -, -, he⟩ := assign_cases t key value
    case inr.inr.inl =>
      have hpq : p ≠ q := fun e => hk ((LastWins.lookup_iff uint_keys.1 uint_keys.2 h).mp
        (e ▸ LastWins.lookup_of_mem uint_keys.1 hq))
      rw [he]
      exact Function.update_of_ne hpq ..
    all_goals rw [he]

end

/-! ## one setting -/

section
variable {setting : List UInt8} {t : Tunables}

theorem split128_eq (h0 : 0 ∉ setting) (hkey : (splitFst setting 61).length < 127)
    (hvalue : (splitSnd setting 61).length ≤ 127) :
    split128 setting = some (splitFst setting 61, splitSnd setting 61) := by
  have hfit : if 61 ∈ setting then
      (splitFst setting 61).length + 2 ≤ 128 ∧ (splitSnd setting 61).length + 1 ≤ 128
      else setting.length + 1 ≤ 128 := by
    split
    · omega
    · rename_i hm
      rw [(split_none hm).1] at hkey
      omega
  obtain ⟨m', he, hk, hv⟩ := split_beside (c := 61) (by decide) h0 (Nat.lt_succ_self _) hfit
  unfold split128
  rw [he, Option.map_some, hk, hv]

/-- **A setting that fits** stores its value, unless that is empty. -/
theorem loadSetting_eq (h0 : 0 ∉ setting) (hkey : (splitFst setting 61).length < 127)
    (hvalue : (splitSnd setting 61).length ≤ 127) : parseconfLoadSetting setting t =
      if splitSnd setting 61 = [] then .ok t else store t (splitFst setting 61) (splitSnd setting 61) := by
  unfold parseconfLoadSetting
  rw [split128_eq h0 hkey hvalue]

/-- a value of 128 bytes or more leaves its array -/
theorem loadSetting_long (h0 : 0 ∉ setting) (hkey : (splitFst setting 61).length < 127)
    (hvalue : 127 < (splitSnd setting 61).length) :
    parseconfLoadSetting setting t = .error (.crash .overlap) := by
  have hm : 61 ∈ setting := by
    by_contra hm
    rw [(split_none hm).2] at hvalue
    exact absurd hvalue (Nat.not_lt_zero _)
  have hsum := split_length hm
  have hlen : (beside setting (setting.length + 1) 128).length = setting.length + 1 + 2 * 128 :=
    beside_length (Nat.lt_succ_self _)
  have hparts : cstrAt (beside setting (setting.length + 1) 128) 0 =
      splitFst setting 61 ++ 61 :: splitSnd setting 61 := (cstrAt_beside h0).trans (split_parts hm)
  have hsl : strlen (beside setting (setting.length + 1) 128) 0 = setting.length :=
    congrArg List.length (cstrAt_beside h0)
  -- the second part, where `strcpy` finds it
  have hin : setting.length + 1 + (splitFst setting 61).length + 2 ≤
      (beside setting (setting.length + 1) 128).length := by omega
  have hbehind := cstrAt_headSplit_behind hparts hin (by omega)
  have hcpy : strcpy (headSplit (beside setting (setting.length + 1) 128) (setting.length + 1) (splitFst setting 61))
      (setting.length + 1 + 128) (0 + (splitFst setting 61).length + 1) = none := by
    unfold strcpy
    rw [hbehind, if_neg]
    rw [headSplit_length hin, List.length_append, List.length_singleton]
    omega
  unfold parseconfLoadSetting split128
  rw [strSplit_eq hparts splitFst_not_mem (by omega) (by omega) (by unfold Apart; omega), hcpy]
  rfl

end

/-! ## values that are not well formed -/

/-- what a boolean may be set to -/
def BoolText (value : List UInt8) : Prop := value = ascii "0" ∨ value = ascii "1"

/-- what an unsigned number may be set to: a decimal number, or an octal one with a zero in front, of 32 bits -/
def UintText (value : List UInt8) : Prop :=
  value ≠ [] ∧
    if value.head? = some 48 then (∀ c ∈ value, isOctal c = true) ∧ octalNum value < 2^32
    else (∀ c ∈ value, isDigit c = true) ∧ decNum value < 2^32

/-- the key is known, and the value is not well formed for its type -/
def Malformed (setting : List UInt8) : Prop :=
  (∃ p, (splitFst setting 61, p) ∈ parseconfBoolArray) ∧ ¬ BoolText (splitSnd setting 61) ∨
    (∃ p, (splitFst setting 61, p) ∈ parseconfUintArray) ∧ ¬ UintText (splitSnd setting 61)

/-- the number that a text begins with -/
def leading (value : List UInt8) : Int :=
  if value.head? = some 48 then octalNum (value.takeWhile isOctal) else strtol value

theorem wrapU32_wrapS (z : Int) : wrapU32 (wrapS 32 z) = z % 2^32 := by
  unfold wrapU32 wrapS
  omega

/-- any text is read, as the number it begins with -/
theorem uintValue_mod (value : List UInt8) : uintValue value = leading value % 2^32 := by
  unfold uintValue leading
  split
  · rw [strOctal_mod]
    norm_cast
  · exact wrapU32_wrapS _

/-- a text that is well formed is read as the number it stands for -/
theorem uintValue_text {value : List UInt8} (h : UintText value) :
    uintValue value = if value.head? = some 48 then octalNum value else decNum value := by
  obtain ⟨-, hform⟩ := h
  unfold uintValue
  split
  · rename_i h0
    rw [if_pos h0] at hform
    exact strOctal_of_lt hform.1 hform.2
  · rename_i h0
    rw [if_neg h0] at hform
    have hread := wrapU32_wrapS (strtol value)
    rw [strtol_digits hform.1] at hread
    unfold atoi
    rw [strtol_digits hform.1]
    omega

theorem boolValue_eq_none {value : List UInt8} (h : ¬ BoolText value) : boolValue value = none := by
  unfold boolValue
  rw [if_neg fun e => h (.inr e), if_neg fun e => h (.inl e)]

section
variable {setting : List UInt8} {t : Tunables}

theorem Malformed.known (h : Malformed setting) : (∃ p, (splitFst setting 61, p) ∈ parseconfBoolArray) ∨
    ∃ p, (splitFst setting 61, p) ∈ parseconfUintArray := by
  rcases h with ⟨h, -⟩ | ⟨h, -⟩
  · exact .inl h
  · exact .inr h

theorem known_length : (∀ a ∈ parseconfBoolArray, a.1.length < 127) ∧ ∀ a ∈ parseconfUintArray, a.1.length < 127 := by
  decide

theorem Malformed.key_length (h : Malformed setting) : (splitFst setting 61).length < 127 := by
  obtain ⟨p, hp⟩ | ⟨p, hp⟩ := h.known
  · exact known_length.1 _ hp
  · exact known_length.2 _ hp

theorem Malformed.store (h : Malformed setting) : store t (splitFst setting 61) (splitSnd setting 61) =
    .ok (assign t (splitFst setting 61) (splitSnd setting 61)) := by
  refine store_ok fun p hp => ?_
  obtain ⟨q, hq⟩ | ⟨q, hq⟩ := h.known
  · exact absurd rfl (keys_apart.1 _ hp _ hq)
  · exact absurd rfl (keys_apart.2.1 _ hp _ hq)

theorem Malformed.assign_eq_iff (h : Malformed setting) :
    assign t (splitFst setting 61) (splitSnd setting 61) = t ↔
      ∀ p, (splitFst setting 61, p) ∈ parseconfUintArray → leading (splitSnd setting 61) % 2^32 = t.uint p := by
  rcases h with ⟨⟨q, hq⟩, hv⟩ | ⟨⟨q, hq⟩, -⟩
  · have hkeep : assign t (splitFst setting 61) (splitSnd setting 61) = t := by
      rw [assign_of_bool hq, boolValue_eq_none hv, Option.getD_none, Function.update_eq_self]
    refine ⟨fun _ p hp => ?_, fun _ => hkeep⟩
    exact absurd rfl (keys_apart.2.2 _ hq _ hp)
  · have hone : ∀ p, (splitFst setting 61, p) ∈ parseconfUintArray → p = q := fun p hp =>
      (Prod.mk.inj (List.inj_on_of_nodup_map uint_keys.1 hp hq rfl)).2
    rw [assign_of_uint hq]
    constructor
    · intro he p hp
      have hu := congrArg (fun t => t.uint q) he
      simp only [Function.update_self] at hu
      rw [hone p hp, ← uintValue_mod, hu]
    · intro hread
      have hu := hread q hq
      rw [← uintValue_mod] at hu
      rw [Int.ofNat_inj.mp hu, Function.update_eq_self]

/-- **A setting that is not well formed keeps the tunables** when its value fits its array and is empty, or
its key names a boolean, or the number it begins with is the one that the tunable has already. -/
theorem unchanged_iff (h0 : 0 ∉ setting) (h : Malformed setting) : parseconfLoadSetting setting t = .ok t ↔
    (splitSnd setting 61).length ≤ 127 ∧ ∀ p, (splitFst setting 61, p) ∈ parseconfUintArray →
      splitSnd setting 61 = [] ∨ leading (splitSnd setting 61) % 2^32 = t.uint p := by
  rcases Nat.lt_or_ge 127 (splitSnd setting 61).length with hlong | hfit
  · rw [loadSetting_long h0 h.key_length hlong]
    constructor
    · intro he
      cases he
    · intro hc
      omega
  · rw [loadSetting_eq h0 h.key_length hfit]
    by_cases hv : splitSnd setting 61 = []
    · rw [if_pos hv]
      exact ⟨fun _ => ⟨hfit, fun _ _ => .inl hv⟩, fun _ => rfl⟩
    · rw [if_neg hv, h.store, Except.ok.injEq, h.assign_eq_iff]
      constructor
      · intro hread
        exact ⟨hfit, fun p hp => .inr (hread p hp)⟩
      · intro hread p hp
        exact (hread.2 p hp).resolve_left hv

end

/-- `pasv_enable=yes` keeps its default -/
theorem unchanged_bool : parseconfLoadSetting (ascii "pasv_enable=yes") tunables = .ok tunables ↔
    (splitSnd (ascii "pasv_enable=yes") 61).length ≤ 127 ∧
      ∀ p, (splitFst (ascii "pasv_enable=yes") 61, p) ∈ parseconfUintArray →
        splitSnd (ascii "pasv_enable=yes") 61 = [] ∨
          leading (splitSnd (ascii "pasv_enable=yes") 61) % 2^32 = tunables.uint p :=
  unchanged_iff (by decide) (.inl ⟨⟨.pasvEnable, by decide⟩, by unfold BoolText; decide⟩)

/-- `max_clients=abc` sets the limit to 0, which is none -/
theorem unchanged_abc : Malformed (ascii "max_clients=abc") ∧
    ¬ ∀ setting t, 0 ∉ setting → Malformed setting → parseconfLoadSetting setting t = .ok t := by
  have hm : Malformed (ascii "max_clients=abc") := by
    refine .inr ⟨⟨.maxClients, by decide⟩, ?_⟩
    unfold UintText
    decide
  refine ⟨hm, fun h => ?_⟩
  have hload := congrArg (fun r => r.toOption.map fun t => t.uint .maxClients)
    (h (ascii "max_clients=abc") tunables (by decide) hm)
  revert hload
  decide +kernel

/-! ## the lines of a file -/

/-- A line without its newline: no NUL, no CR but at its end, and, unless it is a comment, two parts that fit. -/
structure ConfLine (line : List UInt8) : Prop where
  short : line.length < 1023
  noNul : 0 ∉ line
  noCr : CR ∉ stripEnd line
  key : line.head? ≠ some 35 → (splitFst (stripEnd line) 61).length < 127
  value : line.head? ≠ some 35 → (splitSnd (stripEnd line) 61).length < 127

theorem confLine_nil : ConfLine [] := by
  constructor <;> decide

/-- the key and the value of a line, `none` for a comment and for an empty value -/
def assignment (line : List UInt8) : Option (List UInt8 × List UInt8) :=
  if line.head? = some 35 ∨ splitSnd (stripEnd line) 61 = [] then none
  else some (splitFst (stripEnd line) 61, splitSnd (stripEnd line) 61)

def assignments (file : List UInt8) : List (List UInt8 × List UInt8) := (file.splitOn LF).filterMap assignment

/-- a line is applied to the tunables -/
def applyLine (t : Tunables) (line : List UInt8) : Res Tunables :=
  (assignment line).elim (.ok t) fun a => store t a.1 a.2

theorem foldlM_applyLine (lines : List (List UInt8)) (t : Tunables) :
    lines.foldlM applyLine t = (lines.filterMap assignment).foldlM (fun t a => store t a.1 a.2) t := by
  induction lines generalizing t with
  | nil => rfl
  | cons line lines ih =>
    rw [List.foldlM_cons]
    simp only [ih]
    unfold applyLine
    cases ha : assignment line with
    | none =>
      rw [List.filterMap_cons_none ha]
      rfl
    | some a => rw [List.filterMap_cons_some ha, Option.elim_some, List.foldlM_cons]

section
variable {line : List UInt8}

theorem stripEnd_newline (line : List UInt8) : stripEnd (line ++ [LF]) = stripEnd line :=
  List.rdropWhile_concat_pos _ _ _ (by decide)

theorem stripEnd_mem {c : UInt8} (h : c ∈ stripEnd line) : c ∈ line := (List.rdropWhile_prefix _ _).subset h

theorem assignment_skipped (h : line = [] ∨ line.head? = some 35 ∨ strAllSpace line = true) :
    assignment line = none := by
  unfold assignment
  rw [if_pos]
  rcases h with h | h | h
  · rw [h]
    exact .inr rfl
  · exact .inl h
  · refine .inr (split_none fun hm => ?_).2
    have hsp := List.all_eq_true.mp h _ (stripEnd_mem hm)
    exact absurd hsp (by decide)

theorem skipped_newline (line : List UInt8) :
    (line ++ [LF] = [] ∨ (line ++ [LF]).head? = some 35 ∨ strAllSpace (line ++ [LF]) = true) ↔
      line.head? = some 35 := by
  have hspace : strAllSpace (line ++ [LF]) = false := by
    unfold strAllSpace
    rw [List.all_append]
    exact Bool.and_false _
  rw [hspace]
  cases line with
  | nil => decide
  | cons c line => simp

theorem ConfLine.loadSetting (h : ConfLine line) (hc : line.head? ≠ some 35) (t : Tunables) :
    parseconfLoadSetting (stripEnd line) t = applyLine t line := by
  have h0 : 0 ∉ stripEnd line := fun hm => h.noNul (stripEnd_mem hm)
  rw [loadSetting_eq h0 (h.key hc) (Nat.le_of_lt (h.value hc))]
  unfold applyLine assignment
  by_cases hv : splitSnd (stripEnd line) 61 = []
  · rw [if_pos hv, if_pos (.inr hv), Option.elim_none]
  · rw [if_neg hv, if_neg (not_or.mpr ⟨hc, hv⟩), Option.elim_some]

theorem cstrAt_fgets (m : Mem) {s : List UInt8} (h0 : 0 ∉ s) : cstrAt (poke m 0 (s ++ [0])) 0 = s := by
  unfold cstrAt poke
  rw [List.take_zero, List.nil_append, List.drop_zero, List.append_assoc, List.singleton_append, cstr_append_zero]
  exact List.takeWhile_eq_self_iff.mpr fun c hc => bne_iff_ne.mpr fun e => h0 (e ▸ hc)

/-- **One round** on a line, with its newline or without it at the end of the file. -/
theorem ConfLine.round (h : ConfLine line) (hlf : LF ∉ line) {s file rest : List UInt8}
    (hs : s = line ++ [LF] ∨ s = line) (hget : fgets 1024 file = some (s, rest)) (fuel : Nat) (m : Mem)
    (t : Tunables) : ∃ m', loadLoop (fuel + 1) m file t = applyLine t line >>= loadLoop fuel m' rest := by
  have h0 : 0 ∉ s := by
    rcases hs with rfl | rfl
    · intro hm
      rcases List.mem_append.mp hm with hm | hm
      · exact h.noNul hm
      · exact absurd (List.mem_singleton.mp hm) (by decide)
    · exact h.noNul
  have hstrip : trimCrlf s = stripEnd line := by
    have hend : stripEnd s = stripEnd line := by
      rcases hs with rfl | rfl
      · exact stripEnd_newline line
      · rfl
    rw [(trimCrlf_iff s).mpr, hend]
    intro c hc
    rw [hend] at hc
    exact ⟨fun e => h.noCr (e ▸ hc), fun e => hlf (e ▸ stripEnd_mem hc)⟩
  have hline : cstrAt (poke m 0 (s ++ [0])) 0 = s := cstrAt_fgets m h0
  have hskipped : (s = [] ∨ s.head? = some 35 ∨ strAllSpace s = true → assignment line = none) ∧
      (line.head? = some 35 → s = [] ∨ s.head? = some 35 ∨ strAllSpace s = true) := by
    rcases hs with rfl | rfl
    · rw [skipped_newline]
      exact ⟨fun hc => assignment_skipped (.inr (.inl hc)), fun hc => hc⟩
    · exact ⟨assignment_skipped, fun hc => .inr (.inl hc)⟩
  rw [loadLoop, hget]
  simp only [cstrAt_strTrimCrlf, hline]
  by_cases hskip : s = [] ∨ s.head? = some 35 ∨ strAllSpace s = true
  · have hkeep : applyLine t line = .ok t := by
      unfold applyLine
      rw [hskipped.1 hskip, Option.elim_none]
    rw [if_pos hskip, hkeep]
    exact ⟨_, rfl⟩
  · rw [if_neg hskip, hstrip, h.loadSetting (fun hc => hskip (hskipped.2 hc)) t]
    exact ⟨_, rfl⟩

end

theorem fgets_newline {line rest : List UInt8} (hlf : LF ∉ line) (hlen : line.length < 1023) :
    fgets 1024 (line ++ LF :: rest) = some (line ++ [LF], rest) := by
  have hpart : (line ++ LF :: rest).take (1024 - 1) = line ++ LF :: rest.take (1022 - line.length) := by
    rw [List.take_append, List.take_of_length_le (by omega),
      show 1024 - 1 - line.length = 1022 - line.length + 1 by omega, List.take_succ_cons]
  have hne : line ++ LF :: rest ≠ [] := List.append_ne_nil_of_right_ne_nil _ (List.cons_ne_nil _ _)
  have hfst : splitFst (line ++ LF :: rest.take (1022 - line.length)) LF = line := (split_unique hlf rfl).1.symm
  unfold fgets
  rw [if_neg hne]
  simp only [hpart]
  rw [if_pos (List.mem_append_right _ List.mem_cons_self), hfst,
    show line ++ LF :: rest = line ++ [LF] ++ rest by simp, List.drop_left]

theorem fgets_last {file : List UInt8} (hne : file ≠ []) (hlf : LF ∉ file) (hlen : file.length < 1023) :
    fgets 1024 file = some (file, []) := by
  unfold fgets
  rw [if_neg hne, List.take_of_length_le (by omega)]
  simp only [if_neg hlf, List.drop_length]

/-- **The loop applies the lines of the file**, whatever the array holds. -/
theorem loadLoop_eq {file : List UInt8} (h : ∀ line ∈ file.splitOn LF, ConfLine line) {fuel : Nat}
    (hf : file.length < fuel) (m : Mem) (t : Tunables) :
    loadLoop fuel m file t = (file.splitOn LF).foldlM applyLine t := by
  induction fuel generalizing file m t with
  | zero => exact absurd hf (Nat.not_lt_zero _)
  | succ fuel ih =>
    by_cases hlf : LF ∈ file
    · have hparts := split_parts hlf
      have hnot : LF ∉ splitFst file LF := splitFst_not_mem
      have hsum := split_length hlf
      have hlines : file.splitOn LF = splitFst file LF :: (splitSnd file LF).splitOn LF := by
        conv_lhs => rw [hparts]
        exact List.splitOn_append_cons_self_of_not_mem hnot _
      rw [hlines] at h ⊢
      rw [List.forall_mem_cons] at h
      have hget : fgets 1024 file = some (splitFst file LF ++ [LF], splitSnd file LF) := by
        conv_lhs => rw [hparts]
        exact fgets_newline hnot h.1.short
      obtain ⟨m', he⟩ := h.1.round hnot (.inl rfl) hget fuel m t
      rw [he, List.foldlM_cons]
      exact congrArg (applyLine t _ >>= ·) (funext fun t => ih h.2 (by omega) m' t)
    · have hlines : file.splitOn LF = [file] := List.splitOn_eq_singleton hlf
      rw [hlines] at h ⊢
      have hline := h file (List.mem_singleton_self _)
      by_cases hne : file = []
      · subst hne
        rfl
      · obtain ⟨m', he⟩ := hline.round hlf (.inr rfl) (fgets_last hne hlf hline.short) fuel m t
        have hpos := List.length_pos_of_ne_nil hne
        have hnil : ∀ line ∈ ([] : List UInt8).splitOn LF, ConfLine line := by
          rw [List.splitOn_nil, List.forall_mem_singleton]
          exact confLine_nil
        rw [he, List.foldlM_cons]
        exact congrArg (applyLine t _ >>= ·) (funext fun t => ih hnil (by rw [List.length_nil]; omega) m' t)

/-- **A file is the settings of its lines**, stored one after the other. -/
theorem loadFile_eq {file : List UInt8} (h : ∀ line ∈ file.splitOn LF, ConfLine line) (t : Tunables) :
    parseconfLoadFile file t = (assignments file).foldlM (fun t a => store t a.1 a.2) t := by
  unfold parseconfLoadFile assignments
  rw [loadLoop_eq h (Nat.lt_succ_self _), foldlM_applyLine]

/-! ## the last setting wins -/

/-- the values that a key is given, in the order of the settings -/
def valuesOf (as : List (List UInt8 × List UInt8)) (key : List UInt8) : List (List UInt8) :=
  as.filterMap fun a => if a.1 = key then some a.2 else none

/-- the values that a file gives to a key, in the order of the lines -/
def given (file key : List UInt8) : List (List UInt8) := valuesOf (assignments file) key

/-- a string is set once, if it has no value yet, or else not at all -/
def SetOnce (as : List (List UInt8 × List UInt8)) (t : Tunables) : Prop :=
  ∀ key p, (key, p) ∈ parseconfStrArray → (valuesOf as key).length + (t.str p).toList.length ≤ 1

section
variable {key value : List UInt8} {as : List (List UInt8 × List UInt8)} {t : Tunables}

theorem valuesOf_cons (a : List UInt8 × List UInt8) (as : List (List UInt8 × List UInt8)) (key : List UInt8) :
    valuesOf (a :: as) key = (if a.1 = key then [a.2] else []) ++ valuesOf as key := by
  unfold valuesOf
  rw [List.filterMap_cons]
  split <;> simp_all

theorem setOnce_cons {a : List UInt8 × List UInt8} (hs : ∀ p, (a.1, p) ∈ parseconfStrArray → t.str p = none) :
    SetOnce (a :: as) t ↔ SetOnce as (assign t a.1 a.2) := by
  have hiff : ∀ key p, (key, p) ∈ parseconfStrArray →
      (valuesOf (a :: as) key).length + (t.str p).toList.length =
        (valuesOf as key).length + ((assign t a.1 a.2).str p).toList.length := by
    intro key p hp
    rw [valuesOf_cons, assign_str hp]
    split
    · rename_i e
      rw [hs p (e ▸ hp)]
      simp
    · rfl
  unfold SetOnce
  constructor
  · intro h key p hp
    rw [← hiff key p hp]
    exact h key p hp
  · intro h key p hp
    rw [hiff key p hp]
    exact h key p hp

/-- **Settings are assigned one after the other**, when no string is set a second time; else the process ends. -/
theorem store_foldlM (as : List (List UInt8 × List UInt8)) (t : Tunables) :
    (SetOnce as t → as.foldlM (fun t a => store t a.1 a.2) t = .ok (as.foldl (fun t a => assign t a.1 a.2) t)) ∧
      (¬ SetOnce as t → as.foldlM (fun t a => store t a.1 a.2) t = .error (.crash .badFree)) := by
  induction as generalizing t with
  | nil =>
    refine ⟨fun _ => rfl, fun h => absurd (fun key p _ => ?_) h⟩
    cases t.str p <;> simp [valuesOf]
  | cons a as ih =>
    rw [List.foldlM_cons, List.foldl_cons]
    by_cases hbad : ∃ p, (a.1, p) ∈ parseconfStrArray ∧ t.str p ≠ none
    · obtain ⟨p, hp, hs⟩ := hbad
      rw [store_bad hp hs]
      refine ⟨fun h => ?_, fun _ => rfl⟩
      have hlen := h _ p hp
      obtain ⟨v, hv⟩ := Option.ne_none_iff_exists'.mp hs
      rw [valuesOf_cons, if_pos rfl, hv] at hlen
      simp at hlen
    · have hfree : ∀ p, (a.1, p) ∈ parseconfStrArray → t.str p = none :=
        fun p hp => by_contra fun hs => hbad ⟨p, hp, hs⟩
      rw [store_ok hfree, setOnce_cons hfree]
      exact ih (assign t a.1 a.2)

end

/-- every tunable has the last value given to its key, or the one it had -/
structure LastGiven (file : List UInt8) (t t' : Tunables) : Prop where
  bool : ∀ key p, (key, p) ∈ parseconfBoolArray →
    t'.bool p = ((given file key).filterMap boolValue).getLast?.getD (t.bool p)
  uint : ∀ key p, (key, p) ∈ parseconfUintArray →
    t'.uint p = ((given file key).map uintValue).getLast?.getD (t.uint p)
  str : ∀ key p, (key, p) ∈ parseconfStrArray →
    t'.str p = ((given file key).map some).getLast?.getD (t.str p)

def knownKeys : List (List UInt8) :=
  parseconfStrArray.map Prod.fst ++ parseconfBoolArray.map Prod.fst ++ parseconfUintArray.map Prod.fst

theorem last_given {β : Type} {get : Tunables → β} {key : List UInt8} {read : List UInt8 → Option β}
    (hget : ∀ t k value, get (assign t k value) = if k = key then (read value).getD (get t) else get t)
    (file : List UInt8) (t : Tunables) : get ((assignments file).foldl (fun t a => assign t a.1 a.2) t) =
      ((given file key).filterMap read).getLast?.getD (get t) := by
  have hfollows : LastWins.Follows (fun t a => assign t a.1 a.2) get
      fun a : List UInt8 × List UInt8 => if a.1 = key then read a.2 else none := by
    intro t a
    show get (assign t a.1 a.2) = (if a.1 = key then read a.2 else none).getD (get t)
    rw [hget]
    split <;> rfl
  have hsets : (given file key).filterMap read =
      (assignments file).filterMap fun a => if a.1 = key then read a.2 else none := by
    unfold given valuesOf
    rw [List.filterMap_filterMap]
    congr 1
    funext a
    split <;> rfl
  rw [hfollows.foldl, hsets]

theorem lastGiven_foldl (file : List UInt8) (t : Tunables) :
    LastGiven file t ((assignments file).foldl (fun t a => assign t a.1 a.2) t) := by
  constructor
  · intro key p hp
    exact @last_given _ (fun t => t.bool p) key _ (fun _ _ _ => assign_bool hp) file t
  · intro key p hp
    rw [← List.filterMap_eq_map]
    exact @last_given _ (fun t => t.uint p) key _ (fun _ _ _ => assign_uint hp) file t
  · intro key p hp
    rw [← List.filterMap_eq_map]
    exact @last_given _ (fun t => t.str p) key _ (fun _ _ _ => assign_str hp) file t

theorem LastGiven.unique {file file' : List UInt8} {t t₁ t₂ : Tunables} (h₁ : LastGiven file t t₁)
    (h₂ : LastGiven file' t t₂) (he : ∀ key ∈ knownKeys, given file key = given file' key) : t₁ = t₂ := by
  ext p : 2
  · obtain ⟨key, hp⟩ := bool_key p
    have hk : key ∈ knownKeys :=
      List.mem_append_left _ (List.mem_append_right _ (List.mem_map_of_mem (f := Prod.fst) hp))
    rw [h₁.bool key p hp, h₂.bool key p hp, he key hk]
  · obtain ⟨key, hp⟩ := uint_key p
    have hk : key ∈ knownKeys := List.mem_append_right _ (List.mem_map_of_mem (f := Prod.fst) hp)
    rw [h₁.uint key p hp, h₂.uint key p hp, he key hk]
  · obtain ⟨key, hp⟩ := str_key p
    have hk : key ∈ knownKeys :=
      List.mem_append_left _ (List.mem_append_left _ (List.mem_map_of_mem (f := Prod.fst) hp))
    rw [h₁.str key p hp, h₂.str key p hp, he key hk]

theorem loadFile_ok {file : List UInt8} {t : Tunables} (h : ∀ line ∈ file.splitOn LF, ConfLine line)
    (ho : SetOnce (assignments file) t) :
    parseconfLoadFile file t = .ok ((assignments file).foldl (fun t a => assign t a.1 a.2) t) :=
  (loadFile_eq h t).trans ((store_foldlM _ t).1 ho)

theorem loadFile_ok_iff {file : List UInt8} {t : Tunables} (h : ∀ line ∈ file.splitOn LF, ConfLine line) :
    (∃ t', parseconfLoadFile file t = .ok t') ↔ SetOnce (assignments file) t := by
  refine ⟨fun ⟨t', ht⟩ => ?_, fun ho => ⟨_, loadFile_ok h ho⟩⟩
  by_contra ho
  rw [loadFile_eq h t, (store_foldlM _ t).2 ho] at ht
  cases ht

/-- the values given to the known keys say whether a file is loaded -/
theorem SetOnce.congr {file file' : List UInt8} {t : Tunables}
    (he : ∀ key ∈ knownKeys, given file key = given file' key) :
    SetOnce (assignments file) t ↔ SetOnce (assignments file') t := by
  have hsame : ∀ key p, (key, p) ∈ parseconfStrArray → given file key = given file' key := fun key p hp =>
    he key (List.mem_append_left _ (List.mem_append_left _ (List.mem_map_of_mem (f := Prod.fst) hp)))
  unfold given at hsame
  unfold SetOnce
  constructor
  · intro h key p hp
    rw [← hsame key p hp]
    exact h key p hp
  · intro h key p hp
    rw [hsame key p hp]
    exact h key p hp

/-- **The configuration is a map in which the last assignment wins**, if no string is set twice: every tunable has the
last value given to its key, and two files that give the same values to each known key, whatever stands between them,
load the same. -/
theorem last_setting_wins {file : List UInt8} (h : ∀ line ∈ file.splitOn LF, ConfLine line) (t : Tunables) :
    ((∃ t', parseconfLoadFile file t = .ok t' ∧ LastGiven file t t') ∧
      ∀ file', (∀ line ∈ file'.splitOn LF, ConfLine line) →
        (∀ key ∈ knownKeys, given file key = given file' key) →
          parseconfLoadFile file' t = parseconfLoadFile file t) ↔ SetOnce (assignments file) t := by
  constructor
  · rintro ⟨⟨t', ht, -⟩, -⟩
    exact (loadFile_ok_iff h).mp ⟨t', ht⟩
  · intro ho
    refine ⟨⟨_, loadFile_ok h ho, lastGiven_foldl file t⟩, fun file' h' he => ?_⟩
    rw [loadFile_ok h ho, loadFile_ok h' ((SetOnce.congr he).mp ho),
      (lastGiven_foldl file t).unique (lastGiven_foldl file' t) he]

/-- a limit that is set twice, between a comment and an unknown key -/
def confFile : List UInt8 :=
  ascii "# limits" ++ [LF] ++ ascii "max_clients=10" ++ [CR, LF] ++ ascii "color=red" ++ [LF] ++
    ascii "max_clients=020" ++ [LF]

theorem confFile_lines : ∀ line ∈ confFile.splitOn LF, ConfLine line := by
  have hlines : confFile.splitOn LF =
      [ascii "# limits", ascii "max_clients=10" ++ [CR], ascii "color=red", ascii "max_clients=020", []] := by
    decide
  rw [hlines]
  simp only [List.forall_mem_cons]
  refine ⟨?_, ?_, ?_, ?_, ?_, nofun⟩
  all_goals constructor <;> decide

theorem confFile_once : SetOnce (assignments confFile) tunables := by
  intro key p hp
  cases List.mem_singleton.mp hp
  decide

theorem last_setting_small : (∃ t', parseconfLoadFile confFile tunables = .ok t' ∧ LastGiven confFile tunables t') ∧
    given confFile (ascii "max_clients") = [ascii "10", ascii "020"] ∧ uintValue (ascii "020") = 16 :=
  ⟨((last_setting_wins confFile_lines tunables).mpr confFile_once).1, by decide, by decide⟩

/-- an address that is set twice -/
def twoAddresses : List UInt8 := ascii "listen_address=10.0.0.1" ++ [LF] ++ ascii "listen_address=10.0.0.2" ++ [LF]

/-- the second address is never stored: the process has ended -/
theorem address_freed : parseconfLoadFile twoAddresses tunables = .error (.crash .badFree) ∧
    ¬ ∀ file t, (∀ line ∈ file.splitOn LF, ConfLine line) →
      ∃ t', parseconfLoadFile file t = .ok t' ∧ LastGiven file t t' := by
  have hlines : ∀ line ∈ twoAddresses.splitOn LF, ConfLine line := by
    have hsplit : twoAddresses.splitOn LF = [ascii "listen_address=10.0.0.1", ascii "listen_address=10.0.0.2", []] := by
      decide
    rw [hsplit]
    simp only [List.forall_mem_cons]
    refine ⟨?_, ?_, confLine_nil, nofun⟩
    all_goals constructor <;> decide
  have htwice : ¬ SetOnce (assignments twoAddresses) tunables := by
    intro h
    have hlen := h (ascii "listen_address") .listenAddress (by decide)
    revert hlen
    decide
  refine ⟨(loadFile_eq hlines _).trans ((store_foldlM _ _).2 htwice), fun h => ?_⟩
  obtain ⟨t', ht, -⟩ := h twoAddresses tunables hlines
  exact htwice ((loadFile_ok_iff hlines).mp ⟨t', ht⟩)

end Myftpd
