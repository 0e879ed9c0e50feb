import Myftpd.Epoll

/-!
# Errors of recv, accept and epoll_wait

`recv_peek` and `readn` repeat a call that failed with `EINTR`; any other error that `readline` meets
ends the process, as does every error of `epoll_wait` and of `accept` on the listening socket.  Only a
failed `accept` on a passive listener is passed over.

* `ctrlRead_fails`    a call that `readline` makes fails;
* `ctrlRead_retried`  none does: the errors that were retried leave no trace.
-/

set_option linter.unusedVariables false

namespace Myftpd
open CMem Server

abbrev Script := List (Option Errno)

/-- the outcomes from the next call on that is not repeated -/
def skip (es : Script) : Script := es.dropWhile (· == some .EINTR)

/-- one of the next `n` calls fails, repeated calls not counted -/
def fails : Nat → Script → Bool
  | 0, _ => false
  | n+1, es => (skip es).headD none != none || fails n (skip es).tail

/-- the calls that `readline` makes -/
def calls (q : List UInt8) : Nat := if HasLine q then 2 else if q = [] then 1 else 3

/-! ## the repeated calls -/

theorem skip_length_le (es : Script) : (skip es).length ≤ es.length := List.length_dropWhile_le _ _

theorem skip_intr (es : Script) : skip (some .EINTR :: es) = skip es := rfl

theorem skip_cases (es : Script) :
    (∃ e t, skip es = some e :: t ∧ e ≠ .EINTR) ∨ (skip es).headD none = none := by
  rcases h : skip es with _ | ⟨_ | e, t⟩
  · exact Or.inr rfl
  · exact Or.inr rfl
  · refine Or.inl ⟨e, t, rfl, fun he => ?_⟩
    have hd : skip es ≠ [] := by rw [h]; exact List.cons_ne_nil _ _
    have h0 := List.head_dropWhile_not (· == some Errno.EINTR) hd
    have h1 : (skip es).head hd = some e := by simp only [h, List.head_cons]
    change (((skip es).head hd) == some Errno.EINTR) = false at h0
    rw [h1, he] at h0
    exact absurd h0 (by decide)

section
variable {q : List UInt8} {fin : Bool} {es : Script} {n fuel : Nat}

theorem peek_open (h : es.headD none = none) :
    sockOps.peek n ⟨q, fin, es⟩ = (Sock.ret ⟨q, fin, []⟩ n, ⟨q, fin, es.tail⟩) := by
  rcases es with _ | ⟨_ | e, t⟩
  · rfl
  · rfl
  · cases h

theorem read_open (h : es.headD none = none) :
    sockOps.read n ⟨q, fin, es⟩ = (Sock.ret ⟨q, fin, []⟩ n, ⟨q.drop n, fin, es.tail⟩) := by
  rcases es with _ | ⟨_ | e, t⟩
  · rfl
  · rfl
  · cases h

theorem ret_ne_intr (k : Sock) : k.ret n ≠ .fail .EINTR := by
  unfold Sock.ret
  split
  · split <;> simp
  · simp

/-- `recv_peek` gives the outcome of the first call that is not repeated -/
theorem recvPeek_skip (hf : es.length < fuel) :
    recvPeek sockOps n fuel ⟨q, fin, es⟩ = some (sockOps.peek n ⟨q, fin, skip es⟩) := by
  induction es generalizing fuel with
  | nil =>
    obtain ⟨f, rfl⟩ : ∃ f, fuel = f + 1 := ⟨fuel - 1, by simp at hf; omega⟩
    rw [recvPeek_succ, peek_open rfl, if_neg (ret_ne_intr _)]
    rfl
  | cons a es ih =>
    obtain ⟨f, rfl⟩ : ∃ f, fuel = f + 1 := ⟨fuel - 1, by simp at hf; omega⟩
    have hf' : es.length < f := by simpa using hf
    by_cases ha : a = some .EINTR
    · subst ha
      rw [recvPeek_succ, skip_intr]
      exact ih hf'
    · have hs : skip (a :: es) = a :: es := List.dropWhile_cons_of_neg (by simpa using ha)
      rw [recvPeek_succ, hs]
      apply if_neg
      rcases a with _ | e
      · rw [peek_open rfl]
        exact ret_ne_intr _
      · intro h
        exact ha (congrArg some (Ret.fail.inj h))

theorem readnLoop_skip {cnt rbuf rest : Nat} {m : Mem} (h0 : rest ≠ 0) (hf : es.length < fuel) :
    ∃ f, fuel - es.length ≤ f ∧ readnLoop sockOps cnt fuel m rbuf rest ⟨q, fin, es⟩
      = readnLoop sockOps cnt f m rbuf rest ⟨q, fin, skip es⟩ := by
  induction es generalizing fuel with
  | nil => exact ⟨fuel, by simp, rfl⟩
  | cons a es ih =>
    obtain ⟨f, rfl⟩ : ∃ f, fuel = f + 1 := ⟨fuel - 1, by simp at hf; omega⟩
    have hf' : es.length < f := by simpa using hf
    by_cases ha : a = some .EINTR
    · subst ha
      obtain ⟨f', hle, he⟩ := ih hf'
      refine ⟨f', by simp; omega, ?_⟩
      rw [readnLoop, if_neg h0, skip_intr]
      exact he
    · have hs : skip (a :: es) = a :: es := List.dropWhile_cons_of_neg (by simpa using ha)
      exact ⟨f + 1, by omega, by rw [hs]⟩

theorem readnAll_fails {m : Mem} {rbuf : Nat} (h0 : 0 < n) (hf : es.length < fuel) {e : Errno}
    {t : Script} (hs : skip es = some e :: t) (he : e ≠ .EINTR) :
    readnAll sockOps fuel m rbuf n ⟨q, fin, es⟩ = .error (.exit .readline) := by
  obtain ⟨f, hle, hl⟩ : ∃ f, fuel - es.length ≤ f ∧
      readnLoop sockOps n fuel m rbuf n ⟨q, fin, es⟩
        = readnLoop sockOps n f m rbuf n ⟨q, fin, skip es⟩ := readnLoop_skip (by omega) hf
  obtain ⟨g, rfl⟩ : ∃ g, f = g + 1 := ⟨f - 1, by omega⟩
  have hr : readn sockOps fuel m rbuf n ⟨q, fin, es⟩ = some (-1, m, ⟨q, fin, t⟩) := by
    unfold readn
    rw [hl, hs, readnLoop, if_neg (by omega)]
    exact if_neg he
  unfold readnAll
  rw [hr]
  exact if_pos (by omega)

theorem readnAll_open {m : Mem} {rbuf : Nat} (h0 : 0 < n) (hn : n ≤ q.length)
    (hf : es.length + 2 ≤ fuel) (hs : (skip es).headD none = none) :
    readnAll sockOps fuel m rbuf n ⟨q, fin, es⟩
      = .ok (poke m rbuf (q.take n), ⟨q.drop n, fin, (skip es).tail⟩) := by
  have hq : q ≠ [] := by rintro rfl; simp at hn; omega
  have hl : (q.take n).length = n := by rw [List.length_take]; omega
  have ht : q.take n ≠ [] := by intro e; rw [e] at hl; simp at hl; omega
  obtain ⟨f, hle, hlp⟩ : ∃ f, fuel - es.length ≤ f ∧
      readnLoop sockOps n fuel m rbuf n ⟨q, fin, es⟩
        = readnLoop sockOps n f m rbuf n ⟨q, fin, skip es⟩ := readnLoop_skip (by omega) (by omega)
  obtain ⟨g, rfl⟩ : ∃ g, f = g + 1 + 1 := ⟨f - 2, by omega⟩
  have hr : readn sockOps fuel m rbuf n ⟨q, fin, es⟩
      = some ((n : Int), poke m rbuf (q.take n), ⟨q.drop n, fin, (skip es).tail⟩) := by
    unfold readn
    rw [hlp, readnLoop, if_neg (by omega), read_open hs, Sock.ret_of_ne_nil hq]
    show (if q.take n = [] then _ else readnLoop sockOps n (g+1) _ _ (n - (q.take n).length) _) = _
    rw [if_neg ht, hl, Nat.sub_self, readnLoop, if_pos rfl]
  unfold readnAll
  rw [hr]
  show (if (n : Int) ≠ n then _ else _) = _
  rw [if_neg (by simp)]

end

/-! ## readline under a script -/

theorem fails_cases (n : Nat) (es : Script) :
    fails (n+1) es = true ∧ (∃ e t, skip es = some e :: t ∧ e ≠ .EINTR) ∨
    fails (n+1) es = fails n (skip es).tail ∧ (skip es).headD none = none := by
  rcases skip_cases es with ⟨e, t, h, he⟩ | h
  · refine Or.inl ⟨?_, e, t, h, he⟩
    show ((skip es).headD none != none || _) = true
    rw [h]
    rfl
  · refine Or.inr ⟨?_, h⟩
    show ((skip es).headD none != none || _) = _
    rw [h]
    rfl

section
variable {q : List UInt8} {fin : Bool} {es : Script}

theorem skip_tail_length_le (es : Script) : (skip es).tail.length ≤ es.length := by
  have := skip_length_le es
  rw [List.length_tail]
  omega

theorem readCmdline_script (q : List UInt8) (fin : Bool) (es : Script) :
    readCmdline ⟨q, fin, es⟩ = readlineLoop sockOps (es.length + roundFuel + 2 + 1)
      sessMem 0 MAX_COMMAND_LINE 0 ⟨q, fin, es⟩ := rfl

theorem readCmdline_peek_fails {e : Errno} {t : Script} (hs : skip es = some e :: t) :
    ∃ r, readCmdline ⟨q, fin, es⟩ = .ok (-1, r) := by
  have hp : recvPeek sockOps MAX_COMMAND_LINE (es.length + roundFuel + 2 + 1) ⟨q, fin, es⟩
      = some (.fail e, ⟨q, fin, t⟩) := by
    rw [recvPeek_skip (by omega), hs]
    rfl
  exact ⟨_, readlineLoop_fail hp⟩

theorem recvPeek_open {n fuel : Nat} (hq : q ≠ []) (hf : es.length < fuel)
    (hs : (skip es).headD none = none) :
    recvPeek sockOps n fuel ⟨q, fin, es⟩ = some (.got (q.take n), ⟨q, fin, (skip es).tail⟩) := by
  rw [recvPeek_skip hf, peek_open hs, Sock.ret_of_ne_nil hq]

theorem recvPeek_open_nil {n fuel : Nat} (hf : es.length < fuel)
    (hs : (skip es).headD none = none) :
    recvPeek sockOps n fuel ⟨[], fin, es⟩
      = some (if fin then .got [] else .fail .EAGAIN, ⟨[], fin, (skip es).tail⟩) := by
  rw [recvPeek_skip hf, peek_open hs]
  cases fin <;> rfl

/-- the line is there: the first peek sees it, and its bytes are read -/
theorem readCmdline_line (h : HasLine q) (hs : (skip es).headD none = none) :
    readCmdline ⟨q, fin, es⟩ = readlineEnd sockOps (es.length + roundFuel + 2 + 1) (peeked q) 0
      ((cstr (q.take MAX_COMMAND_LINE)).idxOf LF) 0 ⟨q, fin, (skip es).tail⟩ := by
  rw [readCmdline_script, readlineLoop_line (recvPeek_open h.ne_nil (by omega) hs)
    (take_MAX_ne_nil h.ne_nil) (strchr_peeked h)]
  rfl

/-- the line is not there: what was peeked is read, then a second round begins -/
theorem readCmdline_more (h : ¬ HasLine q) (hq : q ≠ []) (hs : (skip es).headD none = none) :
    readCmdline ⟨q, fin, es⟩
      = readnAll sockOps (es.length + roundFuel + 2 + 1) (peeked q) 0
          (q.take MAX_COMMAND_LINE).length ⟨q, fin, (skip es).tail⟩ >>= fun r =>
        readlineLoop sockOps (es.length + roundFuel + 2) r.1 (0 + (q.take MAX_COMMAND_LINE).length)
          (MAX_COMMAND_LINE - (q.take MAX_COMMAND_LINE).length)
          (0 + (q.take MAX_COMMAND_LINE).length) r.2 := by
  have hc : strchr (peeked q) 0 LF = none := by
    rw [strchr_eq_none, cstrAt_peeked]; exact h
  have hl : (q.take MAX_COMMAND_LINE).length ≤ MAX_COMMAND_LINE := by
    rw [List.length_take]; exact Nat.min_le_left _ _
  rw [readCmdline_script, readlineLoop_more (recvPeek_open hq (by omega) hs) (take_MAX_ne_nil hq) hl
    hc]
  rfl

end

/-! ## processCtrlRead under a script -/

theorem ctrlRead_of_error {k : Sock} {e : Stop} (h : readCmdline k = .error e) :
    ctrlRead k = .error e := by
  unfold ctrlRead
  rw [h]

theorem ctrlRead_of_fail {k : Sock} {r : Mem × Sock} (h : readCmdline k = .ok (-1, r)) :
    ctrlRead k = .error (.exit .readline) := by
  obtain ⟨m, k'⟩ := r
  unfold ctrlRead
  rw [h]
  rfl

theorem take_drop_length (q : List UInt8) :
    q.drop (q.take MAX_COMMAND_LINE).length = q.drop MAX_COMMAND_LINE := by
  rw [List.length_take]
  rcases Nat.le_total MAX_COMMAND_LINE q.length with h1 | h1
  · rw [Nat.min_eq_left h1]
  · rw [Nat.min_eq_right h1, List.drop_length, List.drop_eq_nil_of_le h1]

section
variable {q : List UInt8} {fin : Bool} {es : Script}

theorem readCmdline_line_open (h : HasLine q) (hs : (skip es).headD none = none)
    (hs' : (skip (skip es).tail).headD none = none) :
    readCmdline ⟨q, fin, es⟩
      = .ok (lineLen q, peeked q, ⟨q.drop (lineLen q), fin, (skip (skip es).tail).tail⟩) := by
  have hle := skip_tail_length_le es
  rw [readCmdline_line h hs]
  unfold readlineEnd
  rw [Nat.sub_zero, readnAll_open (Nat.succ_pos _) h.lineLen_le_length (by omega) hs']
  show Except.ok (((0 + lineLen q : Nat) : Int), poke (peeked q) 0 (q.take (lineLen q)), _) = _
  rw [poke_peeked h.lineLen_le, Nat.zero_add]
  rfl

theorem readCmdline_more_open (h : ¬ HasLine q) (hq : q ≠ []) (hs : (skip es).headD none = none)
    (hs' : (skip (skip es).tail).headD none = none) :
    readCmdline ⟨q, fin, es⟩ = readlineLoop sockOps (es.length + roundFuel + 1 + 1) (peeked q)
      (0 + (q.take MAX_COMMAND_LINE).length)
      (MAX_COMMAND_LINE - (q.take MAX_COMMAND_LINE).length) (0 + (q.take MAX_COMMAND_LINE).length)
      ⟨q.drop MAX_COMMAND_LINE, fin, (skip (skip es).tail).tail⟩ := by
  have hle := skip_tail_length_le es
  have hpos : 0 < (q.take MAX_COMMAND_LINE).length := List.length_pos_iff.mpr (take_MAX_ne_nil hq)
  rw [readCmdline_more h hq hs, readnAll_open hpos (List.length_take_le' _ _) (by omega) hs',
    take_drop_length]
  show readlineLoop sockOps _ (poke (peeked q) 0 (q.take _)) _ _ _ _ = _
  rw [poke_peeked (Nat.le_refl _)]

/-- **A call fails**: the process exits. -/
theorem ctrlRead_fails (h : fails (calls q) es = true) :
    ctrlRead ⟨q, fin, es⟩ = .error (.exit .readline) := by
  have hle := skip_tail_length_le es
  obtain ⟨n, hn⟩ : ∃ n, calls q = n + 1 := by
    unfold calls
    split
    · exact ⟨1, rfl⟩
    · split
      exacts [⟨0, rfl⟩, ⟨2, rfl⟩]
  rw [hn] at h
  rcases fails_cases n es with ⟨-, e, t, hs, -⟩ | ⟨hf, hs⟩
  · obtain ⟨r, hr⟩ := @readCmdline_peek_fails q fin es e t hs
    exact ctrlRead_of_fail hr
  rw [hf] at h
  by_cases hl : HasLine q
  · obtain rfl : n = 1 := by
      unfold calls at hn
      rw [if_pos hl] at hn
      omega
    rcases fails_cases 0 (skip es).tail with ⟨-, e, t, hs', he⟩ | ⟨hf', -⟩
    · apply ctrlRead_of_error
      rw [readCmdline_line hl hs]
      unfold readlineEnd
      rw [readnAll_fails (Nat.succ_pos _) (by omega) hs' he]
      rfl
    · rw [hf'] at h
      cases h
  · by_cases hq : q = []
    · obtain rfl : n = 0 := by
        unfold calls at hn
        rw [if_neg hl, if_pos hq] at hn
        omega
      cases h
    · obtain rfl : n = 2 := by
        unfold calls at hn
        rw [if_neg hl, if_neg hq] at hn
        omega
      rcases fails_cases 1 (skip es).tail with ⟨-, e, t, hs', he⟩ | ⟨hf', hs'⟩
      · apply ctrlRead_of_error
        have hpos := List.length_pos_iff.mpr (take_MAX_ne_nil hq)
        rw [readCmdline_more hl hq hs, readnAll_fails hpos (by omega) hs' he]
        rfl
      · rw [hf'] at h
        rcases fails_cases 0 (skip (skip es).tail).tail with ⟨-, e, t, hs'', -⟩ | ⟨hf'', -⟩
        · have hle' := skip_tail_length_le (skip es).tail
          have hp : recvPeek sockOps (MAX_COMMAND_LINE - (q.take MAX_COMMAND_LINE).length)
              (es.length + roundFuel + 1 + 1)
              ⟨q.drop MAX_COMMAND_LINE, fin, (skip (skip es).tail).tail⟩
              = some (.fail e, ⟨q.drop MAX_COMMAND_LINE, fin, t⟩) := by
            rw [recvPeek_skip (by omega), hs'']
            rfl
          exact ctrlRead_of_fail ((readCmdline_more_open hl hq hs hs').trans (readlineLoop_fail hp))
        · rw [hf''] at h
          cases h

/-- **No call fails**: the result is that of a script without errors. -/
theorem ctrlRead_retried (h : fails (calls q) es = false) : ∃ t, ctrlRead ⟨q, fin, es⟩ =
    if HasLine q then .ok (some (peeked q, ⟨q.drop (lineLen q), fin, t⟩))
    else if q.drop MAX_COMMAND_LINE = [] ∧ fin = false then .error (.exit .readline)
    else .ok none := by
  have hle := skip_tail_length_le es
  have hopen : ∀ n es', fails (n+1) es' = false →
      (skip es').headD none = none ∧ fails n (skip es').tail = false := by
    intro n es' hn
    rcases fails_cases n es' with ⟨ht, -⟩ | ⟨hf, hs⟩
    · rw [ht] at hn; cases hn
    · exact ⟨hs, hf ▸ hn⟩
  by_cases hl : HasLine q
  · simp only [if_pos hl]
    unfold calls at h
    rw [if_pos hl] at h
    obtain ⟨hs, h1⟩ := hopen _ _ h
    obtain ⟨hs', -⟩ := hopen _ _ h1
    have h0 : (0 : Int) < lineLen q := Int.natCast_pos.mpr (Nat.succ_pos _)
    refine ⟨(skip (skip es).tail).tail, ?_⟩
    unfold ctrlRead
    rw [readCmdline_line_open hl hs hs']
    show (if (lineLen q : Int) = -1 then _ else if (lineLen q : Int) = 0 then _ else _) = _
    rw [if_neg (by omega), if_neg (by omega)]
  · simp only [if_neg hl]
    by_cases hq : q = []
    · subst hq
      unfold calls at h
      rw [if_neg hl, if_pos rfl] at h
      obtain ⟨hs, -⟩ := hopen _ _ h
      refine ⟨[], ?_⟩
      unfold ctrlRead
      rw [readCmdline_script]
      cases fin
      · rw [readlineLoop_fail (recvPeek_open_nil (by omega) hs)]
        rfl
      · rw [readlineLoop_stop (recvPeek_open_nil (by omega) hs)]
        rfl
    · unfold calls at h
      rw [if_neg hl, if_neg hq] at h
      obtain ⟨hs, h1⟩ := hopen _ _ h
      obtain ⟨hs', h2⟩ := hopen _ _ h1
      obtain ⟨hs'', -⟩ := hopen _ _ h2
      have hle' := skip_tail_length_le (skip es).tail
      refine ⟨[], ?_⟩
      unfold ctrlRead
      rw [readCmdline_more_open hl hq hs hs']
      by_cases hd : q.drop MAX_COMMAND_LINE = []
      · rw [hd]
        cases fin
        · rw [readlineLoop_fail (recvPeek_open_nil (by omega) hs'')]
          rfl
        · rw [readlineLoop_stop (recvPeek_open_nil (by omega) hs'')]
          rfl
      · -- a full buffer: the third call asks for no byte
        have hfull : (q.take MAX_COMMAND_LINE).length = MAX_COMMAND_LINE := by
          rw [List.length_take, Nat.min_eq_left]
          by_contra hlt
          exact hd (List.drop_eq_nil_of_le (by omega))
        rw [hfull, Nat.sub_self, if_neg (fun hc => hd hc.1),
          readlineLoop_stop (recvPeek_open hd (by omega) hs'')]
        rfl

end

theorem ctrlRead_error {k : Sock} {e : Stop} (h : ctrlRead k = .error e) : e = .exit .readline := by
  obtain ⟨q, fin, es⟩ := k
  cases hf : fails (calls q) es with
  | true =>
    rw [ctrlRead_fails hf] at h
    cases h
    rfl
  | false =>
    obtain ⟨t, ht⟩ := @ctrlRead_retried q fin es hf
    rw [ht] at h
    split at h
    · cases h
    · split at h
      · cases h
        rfl
      · cases h

end Myftpd
