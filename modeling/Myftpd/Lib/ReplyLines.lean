import Myftpd.Lib.Monitor
import Mathlib.Data.List.Infix

/-!
# Replies in lines

A reply has a code and one or more lines.  A reply of one line is the code, a blank and the text.  A longer one
opens with the code, a dash and the text of the first line, and ends with the line that starts with the same code
and a blank; the lines between them are sent as they are.

* `wire`        what is sent;
* `Reader`      a client that reads letter by letter, `none` once it meets what is no reply;
* `run_items`   the client gets back what was sent, and is ready for the next reply;
* `run_prefix`  whatever part of the stream has arrived, it has got the first replies.
-/

set_option linter.unusedSectionVars false

namespace ReplyLines

/-- the letters that make up the frame of a reply -/
structure Marks (α : Type*) where
  cr : α
  lf : α
  sp : α
  dash : α
  ends : cr ≠ lf
  opens : dash ≠ sp

inductive Item (α : Type*) where
  | one (code text : List α)
  | many (code first : List α) (mid : List (List α)) (last : List α)

/-- what a client has of the stream: the line it is reading, the reply of several lines it is reading, and the
replies it has got -/
structure Reader (α : Type*) where
  line : List α
  part : Option (List α × List α × List (List α))
  done : List (Item α)

section
variable {α : Type*} [DecidableEq α] (M : Marks α) (k : Nat)

def Item.lines : Item α → List (List α)
  | .one code text => [code ++ M.sp :: text]
  | .many code first mid last => (code ++ M.dash :: first) :: mid ++ [code ++ M.sp :: last]

def wire (it : Item α) : List α := (it.lines M).flatMap (· ++ [M.cr, M.lf])

/-- the line closes the reply that was opened with the code -/
def Closes (code l : List α) : Prop := l.take k = code ∧ (l.drop k).head? = some M.sp

instance (code l : List α) : Decidable (Closes M k code l) :=
  inferInstanceAs (Decidable (_ ∧ _))

/-- a reply that can be read back, with a code of `k` letters -/
def Item.WellFormed : Item α → Prop
  | .one code text => code.length = k ∧ M.lf ∉ code ∧ M.lf ∉ text
  | .many code first mid last => code.length = k ∧ M.lf ∉ code ∧ M.lf ∉ first ∧ M.lf ∉ last ∧
      ∀ l ∈ mid, M.lf ∉ l ∧ ¬ Closes M k code l

namespace Reader

def start : Reader α := ⟨[], none, []⟩

def take (r : Reader α) (l : List α) : Option (Reader α) :=
  match r.part with
  | none =>
    if (l.drop k).head? = some M.sp then
      some { r with done := r.done ++ [.one (l.take k) (l.drop (k + 1))] }
    else if (l.drop k).head? = some M.dash then
      some { r with part := some (l.take k, l.drop (k + 1), []) }
    else none
  | some (code, first, mid) =>
    if Closes M k code l then
      some { r with part := none, done := r.done ++ [.many code first mid (l.drop (k + 1))] }
    else some { r with part := some (code, first, mid ++ [l]) }

def feed (r : Reader α) (c : α) : Option (Reader α) :=
  if c = M.lf then
    if r.line.getLast? = some M.cr then take M k { r with line := [] } r.line.dropLast else none
  else some { r with line := r.line ++ [c] }

def run (r : Reader α) (cs : List α) : Option (Reader α) := Runs.monitor (feed M k) r cs

end Reader

open Reader

variable {M k} {r r' : Reader α} {l cs ds code text first last : List α} {m : List (List α)} {it : Item α}

theorem run_append : run M k r (cs ++ ds) = (run M k r cs).bind fun r => run M k r ds :=
  Runs.monitor_append

/-! ## one line -/

theorem run_text (h : M.lf ∉ cs) : run M k r cs = some { r with line := r.line ++ cs } := by
  induction cs generalizing r with
  | nil =>
    rw [List.append_nil]
    rfl
  | cons c cs ih =>
    have hc : c ≠ M.lf := fun e => h (e ▸ List.mem_cons_self)
    have hfeed : feed M k r c = some { r with line := r.line ++ [c] } := if_neg hc
    show (feed M k r c).bind (fun r => run M k r cs) = _
    rw [hfeed, Option.bind_some, ih fun hm => h (List.mem_cons_of_mem _ hm), List.append_assoc]
    rfl

theorem run_line (hr : r.line = []) (h : M.lf ∉ l) : run M k r (l ++ [M.cr, M.lf]) = take M k r l := by
  have hcr : M.lf ∉ l ++ [M.cr] := by
    rw [List.mem_append, List.mem_singleton]
    exact fun hm => hm.elim h fun e => M.ends e.symm
  have hsplit : l ++ [M.cr, M.lf] = (l ++ [M.cr]) ++ [M.lf] := by rw [List.append_assoc]; rfl
  rw [hsplit, run_append, run_text hcr, Option.bind_some, hr, List.nil_append]
  show (feed M k { r with line := l ++ [M.cr] } M.lf).bind some = _
  have hfeed : feed M k { r with line := l ++ [M.cr] } M.lf = take M k { r with line := [] } l := by
    unfold feed
    rw [if_pos rfl, if_pos List.getLast?_concat, List.dropLast_concat]
  have hline : ({ r with line := [] } : Reader α) = r := by rw [← hr]
  rw [hfeed, Option.bind_fun_some, hline]

theorem head_code (hk : code.length = k) (c : α) : ((code ++ c :: text).drop k).head? = some c := by
  rw [List.drop_append_of_le_length hk.ge, List.drop_of_length_le hk.le]
  rfl

theorem take_code (hk : code.length = k) (c : α) : (code ++ c :: text).take k = code := by
  rw [← hk, List.take_left]

theorem drop_code (hk : code.length = k) (c : α) : (code ++ c :: text).drop (k + 1) = text := by
  rw [← List.drop_drop, ← hk, List.drop_left]
  rfl

theorem take_one (hp : r.part = none) (hk : code.length = k) :
    take M k r (code ++ M.sp :: text) = some { r with done := r.done ++ [.one code text] } := by
  unfold take
  rw [hp]
  dsimp only
  rw [if_pos (head_code hk _), take_code hk, drop_code hk]

theorem take_first (hp : r.part = none) (hk : code.length = k) :
    take M k r (code ++ M.dash :: first) = some { r with part := some (code, first, []) } := by
  unfold take
  rw [hp]
  dsimp only
  rw [head_code hk, if_neg fun e => M.opens (Option.some.inj e), if_pos rfl, take_code hk, drop_code hk]

theorem take_mid (hp : r.part = some (code, first, m)) (hl : ¬ Closes M k code l) :
    take M k r l = some { r with part := some (code, first, m ++ [l]) } := by
  unfold take
  rw [hp]
  exact if_neg hl

theorem take_last (hp : r.part = some (code, first, m)) (hk : code.length = k) :
    take M k r (code ++ M.sp :: last) =
      some { r with part := none, done := r.done ++ [.many code first m last] } := by
  unfold take
  rw [hp]
  dsimp only
  rw [if_pos ⟨take_code hk _, head_code hk _⟩, drop_code hk]

/-! ## one reply -/

theorem run_mid {ls : List (List α)} (hr : r.line = []) (hp : r.part = some (code, first, m))
    (h : ∀ l ∈ ls, M.lf ∉ l ∧ ¬ Closes M k code l) : run M k r (ls.flatMap (· ++ [M.cr, M.lf])) =
      some { r with part := some (code, first, m ++ ls) } := by
  induction ls generalizing r m with
  | nil =>
    rw [List.append_nil, ← hp]
    rfl
  | cons l ls ih =>
    obtain ⟨h1, h2⟩ := h l List.mem_cons_self
    rw [List.flatMap_cons, run_append, run_line hr h1, take_mid hp h2, Option.bind_some,
      ih (r := { r with part := some (code, first, m ++ [l]) }) (m := m ++ [l]) hr rfl
        fun i hi => h i (List.mem_cons_of_mem _ hi), List.append_assoc]
    rfl

theorem lf_line (c : α) (hc : c ≠ M.lf) (h1 : M.lf ∉ code) (h2 : M.lf ∉ text) : M.lf ∉ code ++ c :: text := by
  rw [List.mem_append, List.mem_cons]
  exact fun h => h.elim h1 fun h => h.elim (fun e => hc e.symm) h2

/-- A client that is ready for a reply gets it, and is ready for the next one. -/
theorem run_item (hsp : M.sp ≠ M.lf) (hdash : M.dash ≠ M.lf) (hr : r.line = []) (hp : r.part = none)
    (h : it.WellFormed M k) : run M k r (wire M it) = some { r with done := r.done ++ [it] } := by
  unfold wire
  cases it with
  | one code text =>
    obtain ⟨hk, h1, h2⟩ := h
    rw [Item.lines, List.flatMap_singleton, run_line hr (lf_line _ hsp h1 h2), take_one hp hk]
  | many code first mid last =>
    obtain ⟨hk, h1, h2, h3, h4⟩ := h
    rw [Item.lines, List.flatMap_append, List.flatMap_cons, List.flatMap_singleton, run_append, run_append,
      run_line hr (lf_line _ hdash h1 h2), take_first hp hk, Option.bind_some,
      run_mid (m := []) (r := { r with part := some (code, first, []) }) hr rfl h4, Option.bind_some,
      List.nil_append]
    rw [run_line (r := { r with part := some (code, first, mid) }) hr (lf_line _ hsp h1 h3), take_last rfl hk, ← hp]

/-! ## a stream of replies -/

/-- **The client gets back what was sent.** -/
theorem run_items (hsp : M.sp ≠ M.lf) (hdash : M.dash ≠ M.lf) {its : List (Item α)} (hr : r.line = [])
    (hp : r.part = none) (h : ∀ it ∈ its, it.WellFormed M k) :
    run M k r (its.flatMap (wire M)) = some { r with done := r.done ++ its } := by
  induction its generalizing r with
  | nil =>
    rw [List.append_nil]
    rfl
  | cons it its ih =>
    rw [List.flatMap_cons, run_append, run_item hsp hdash hr hp (h it List.mem_cons_self), Option.bind_some,
      ih (r := { r with done := r.done ++ [it] }) hr hp fun i hi => h i (List.mem_cons_of_mem _ hi), List.append_assoc]
    rfl

theorem take_done (h : take M k r l = some r') : r.done <+: r'.done := by
  unfold take at h
  split at h
  · split at h
    · cases h
      exact List.prefix_append ..
    · split at h
      · cases h
        exact List.prefix_rfl
      · cases h
  · split at h
    · cases h
      exact List.prefix_append ..
    · cases h
      exact List.prefix_rfl

theorem feed_done {c : α} (h : feed M k r c = some r') : r.done <+: r'.done := by
  unfold feed at h
  split at h
  · split at h
    · exact take_done (r := { r with line := [] }) h
    · cases h
  · cases h
    exact List.prefix_rfl

theorem run_done (h : run M k r cs = some r') : r.done <+: r'.done := by
  induction cs generalizing r with
  | nil =>
    cases h
    exact List.prefix_rfl
  | cons c cs ih =>
    obtain ⟨t, ht, h⟩ := Option.bind_eq_some_iff.mp (h : (feed M k r c).bind (fun r => run M k r cs) = some r')
    exact (feed_done ht).trans (ih h)

/-- **At every moment** the client has got the first replies of the stream. -/
theorem run_prefix (hp : cs <+: ds) (h : run M k r ds = some r') :
    ∃ t, run M k r cs = some t ∧ t.done <+: r'.done := by
  obtain ⟨es, rfl⟩ := hp
  rw [run_append] at h
  obtain ⟨t, ht, h⟩ := Option.bind_eq_some_iff.mp h
  exact ⟨t, ht, run_done h⟩

end

end ReplyLines
