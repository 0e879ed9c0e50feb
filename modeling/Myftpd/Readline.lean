import Myftpd.Feed
import Myftpd.Buffers

/-!
# readline on a blocking stream

`readlineInt` is `readline` with its `int` variables: `len` is cut to 32 bits, and `rest` is widened again
when it is handed to `recv`.  Up to 2^31 bytes it is the `readline` of `Sysutil`.

* `readlineInt_eq`      the two agree on every socket that gives no more than it is asked for;
* `Buffer`              a buffer that begins with what was read, and goes on with NULs;
* `line_loop`, `lines_read`  a call on a stream that begins with a line, and calls one after the other;
* `blind_round`         a round that sees no newline reads all that it peeked;
* `frames_iff`          the buffer lengths with which lines come out whole and in order.
-/

namespace Myftpd
open CMem

section
variable {κ : Type} (ops : SockOps κ)

/-- `ret = readn(fd, rbuf, n); if (ret != n) ERR_EXIT("readline")`; `ret` is an `int` -/
def readnInt (fuel : Nat) (m : Mem) (rbuf n : Nat) (k : κ) : Res (Mem × κ) :=
  match readn ops fuel m rbuf n k with
  | none => .error .spin
  | some (ret, m, k) => if wrapS 32 ret ≠ n then .error (.exit .readline) else .ok (m, k)

/-- `rest` and `tot` are `int`s, and `nread` is the result of `recv` stored in one; `recv` takes `rest` as a
`size_t` -/
def readlineIntLoop : Nat → Mem → Nat → Int → Int → κ → Res (ReadRes κ)
  | 0, _, _, _, _, _ => .error .spin
  | fuel+1, m, rbuf, rest, tot, k =>
    match recvPeek ops (rest % 2^64).toNat (fuel+1) k with
    | none => .error .spin
    | some (.fail _, k) => .ok (-1, m, k)
    | some (.got bs, k) =>
      let nread := wrapS 32 bs.length
      if nread ≤ 0 then .ok (nread, poke m rbuf bs, k) else
      match strchr (poke m rbuf bs) rbuf LF with
      | some p => do
        let (m, k) ← readnInt ops (fuel+1) (poke m rbuf bs) rbuf (p - rbuf + 1) k
        return (wrapS 32 (tot + (p - rbuf + 1 : Nat)), m, k)
      | none =>
        if nread > rest then .error (.exit .readline) else do
        let (m, k) ← readnInt ops (fuel+1) (poke m rbuf bs) rbuf nread.toNat k
        readlineIntLoop fuel m (rbuf + nread.toNat) (rest - nread) (tot + nread) k

/-- `int rest = len, tot = 0` -/
def readlineInt (fuel : Nat) (m : Mem) (buf len : Nat) (k : κ) : Res (ReadRes κ) :=
  readlineIntLoop ops fuel m buf (wrapS 32 len) 0 k

end

/-! ## one round -/

theorem wrapS_nat {n : Nat} (h : n < 2^31) : wrapS 32 (n : Int) = n :=
  wrapS_of_lt (by decide) (by omega) (by exact_mod_cast h)

theorem size_of_int {n : Nat} (h : n < 2^31) : ((n : Int) % 2^64).toNat = n := by
  omega

theorem strchr_lt {m : Mem} {p q : Nat} {c : UInt8} (h : strchr m p c = some q) : p ≤ q ∧ q < m.length := by
  obtain ⟨j, hj, rfl⟩ := Option.map_eq_some_iff.mp h
  have hlt : j < (cstrAt m p).length := (List.findIdx?_eq_some_iff_findIdx_eq.mp hj).1
  have hle := cstrAt_length_le m p
  omega

section
variable {κ : Type} {ops : SockOps κ} {fuel r rbuf : Nat} {tot : Int} {m : Mem} {k k' : κ} {bs : List UInt8}

theorem readlineInt_fail {rest : Int} {e : Errno}
    (hp : recvPeek ops (rest % 2^64).toNat (fuel+1) k = some (.fail e, k')) :
    readlineIntLoop ops (fuel+1) m rbuf rest tot k = .ok (-1, m, k') := by
  rw [readlineIntLoop, hp]

theorem readlineInt_got {rest : Int} (hp : recvPeek ops (rest % 2^64).toNat (fuel+1) k = some (.got bs, k')) :
    readlineIntLoop ops (fuel+1) m rbuf rest tot k =
      if wrapS 32 bs.length ≤ 0 then .ok (wrapS 32 bs.length, poke m rbuf bs, k')
      else (strchr (poke m rbuf bs) rbuf LF).elim
        (if wrapS 32 bs.length > rest then .error (.exit .readline)
          else readnInt ops (fuel+1) (poke m rbuf bs) rbuf (wrapS 32 bs.length).toNat k' >>= fun r =>
            readlineIntLoop ops fuel r.1 (rbuf + (wrapS 32 bs.length).toNat) (rest - wrapS 32 bs.length)
              (tot + wrapS 32 bs.length) r.2)
        fun p => readnInt ops (fuel+1) (poke m rbuf bs) rbuf (p - rbuf + 1) k' >>= fun r =>
          .ok (wrapS 32 (tot + (p - rbuf + 1 : Nat)), r.1, r.2) := by
  rw [readlineIntLoop, hp]
  show (if wrapS 32 bs.length ≤ 0 then _ else _) = _
  generalize wrapS 32 bs.length = nread
  cases strchr (poke m rbuf bs) rbuf LF with
  | none =>
    rw [Option.elim_none]
  | some p =>
    rw [Option.elim_some]
    rfl

theorem readlineInt_stop {rest : Int} (hp : recvPeek ops (rest % 2^64).toNat (fuel+1) k = some (.got [], k')) :
    readlineIntLoop ops (fuel+1) m rbuf rest tot k = .ok (0, m, k') := by
  rw [readlineInt_got hp, poke_nil]
  rfl

section
variable {rest : Int} (hp : recvPeek ops (rest % 2^64).toNat (fuel+1) k = some (.got bs, k')) (hb : bs ≠ [])
  (hl : bs.length < 2^31)
include hp hb hl

theorem readlineInt_line {p : Nat} (hc : strchr (poke m rbuf bs) rbuf LF = some p) :
    readlineIntLoop ops (fuel+1) m rbuf rest tot k =
      readnInt ops (fuel+1) (poke m rbuf bs) rbuf (p - rbuf + 1) k' >>= fun r =>
        .ok (wrapS 32 (tot + (p - rbuf + 1 : Nat)), r.1, r.2) := by
  have hpos := List.length_pos_iff.mpr hb
  rw [readlineInt_got hp, wrapS_nat hl, if_neg (by omega), hc, Option.elim_some]

theorem readlineInt_more (hc : strchr (poke m rbuf bs) rbuf LF = none) :
    readlineIntLoop ops (fuel+1) m rbuf rest tot k =
      if (bs.length : Int) > rest then .error (.exit .readline)
      else readnInt ops (fuel+1) (poke m rbuf bs) rbuf bs.length k' >>= fun r =>
        readlineIntLoop ops fuel r.1 (rbuf + bs.length) (rest - bs.length) (tot + bs.length) r.2 := by
  have hpos := List.length_pos_iff.mpr hb
  rw [readlineInt_got hp, wrapS_nat hl, if_neg (by omega), hc, Option.elim_none, Int.toNat_natCast]

end

end

/-! ## the readline of the other modules -/

/-- no call gives more than it is asked for -/
structure SockOps.Bounded {κ : Type} (ops : SockOps κ) : Prop where
  peek : ∀ {n k bs k'}, ops.peek n k = (.got bs, k') → bs.length ≤ n
  read : ∀ {n k bs k'}, ops.read n k = (.got bs, k') → bs.length ≤ n

section
variable {κ : Type} {ops : SockOps κ} (hops : ops.Bounded)
include hops

theorem SockOps.Bounded.recvPeek {n fuel : Nat} {k k' : κ} {bs : List UInt8}
    (h : Myftpd.recvPeek ops n fuel k = some (.got bs, k')) : bs.length ≤ n := by
  induction fuel generalizing k with
  | zero => cases h
  | succ fuel ih =>
    rw [recvPeek_succ] at h
    split at h
    · exact ih h
    · exact hops.peek (Option.some.inj h)

/-- the memory keeps its length, and the result of `readn` is -1 or at most the count -/
theorem SockOps.Bounded.readnLoop {cnt fuel p rest : Nat} {m m' : Mem} {k k' : κ} {ret : Int}
    (h : Myftpd.readnLoop ops cnt fuel m p rest k = some (ret, m', k')) (hp : p + rest ≤ m.length) (hr : rest ≤ cnt) :
    m'.length = m.length ∧ -1 ≤ ret ∧ ret ≤ cnt := by
  induction fuel generalizing m p rest k with
  | zero => cases h
  | succ fuel ih =>
    by_cases h0 : rest = 0
    · subst h0
      rw [readnLoop_zero] at h
      cases h
      exact ⟨rfl, by omega, Int.le_refl _⟩
    obtain ⟨r, k1, hread⟩ : ∃ r k1, ops.read rest k = (r, k1) := ⟨_, _, rfl⟩
    cases r with
    | fail e =>
      rw [readnLoop_fail h0 hread] at h
      split at h
      · exact ih h hp hr
      · cases h
        exact ⟨rfl, by omega, by omega⟩
    | got bs =>
      have hle := hops.read hread
      rw [readnLoop_got h0 hread] at h
      split at h
      · cases h
        exact ⟨rfl, by omega, by omega⟩
      · have hl : (poke m p bs).length = m.length := poke_length (by omega)
        obtain ⟨h1, h2⟩ := ih h (by omega) (by omega)
        exact ⟨h1.trans hl, h2⟩

theorem readnInt_eq {fuel p n : Nat} {m : Mem} {k : κ} (hp : p + n ≤ m.length) (hn : n < 2^31) :
    readnInt ops fuel m p n k = readnAll ops fuel m p n k := by
  unfold readnInt readnAll
  cases h : readn ops fuel m p n k with
  | none => rfl
  | some r =>
    obtain ⟨ret, m', k'⟩ := r
    obtain ⟨-, h1, h2⟩ := hops.readnLoop h hp (Nat.le_refl n)
    show (if wrapS 32 ret ≠ n then _ else _) = (if ret ≠ n then _ else _)
    rw [wrapS_of_lt (by decide) (by omega) (by omega)]

theorem readnAll_length {fuel p n : Nat} {m m' : Mem} {k k' : κ} (hp : p + n ≤ m.length)
    (h : readnAll ops fuel m p n k = .ok (m', k')) : m'.length = m.length := by
  unfold readnAll at h
  split at h
  · cases h
  · rename_i ret m1 k1 hread
    split at h
    · cases h
    · cases h
      exact (hops.readnLoop hread hp (Nat.le_refl n)).1

/-- the two loops in step: `tot` bytes have been read -/
theorem readlineIntLoop_eq {fuel buf tot rest : Nat} {m : Mem} {k : κ} (hroom : buf + tot + rest ≤ m.length)
    (hm : m.length < 2^31) : readlineIntLoop ops fuel m (buf + tot) (rest : Int) (tot : Int) k =
      readlineLoop ops fuel m (buf + tot) rest tot k := by
  induction fuel generalizing m tot rest k with
  | zero => rfl
  | succ fuel ih =>
    have hsize := size_of_int (show rest < 2^31 by omega)
    cases hpeek : Myftpd.recvPeek ops rest (fuel+1) k with
    | none =>
      rw [readlineIntLoop, readlineLoop, hsize, hpeek]
    | some r =>
      obtain ⟨r, k1⟩ := r
      have hpeek' := hpeek
      rw [← hsize] at hpeek'
      cases r with
      | fail e => rw [readlineInt_fail hpeek', readlineLoop_fail hpeek]
      | got bs =>
        by_cases hb : bs = []
        · subst hb
          rw [readlineInt_stop hpeek', readlineLoop_stop hpeek]
        have hle := hops.recvPeek hpeek
        have hl : (poke m (buf + tot) bs).length = m.length := poke_length (by omega)
        cases hchr : strchr (poke m (buf + tot) bs) (buf + tot) LF with
        | some p =>
          obtain ⟨hlo, hhi⟩ := strchr_lt hchr
          rw [readlineInt_line hpeek' hb (by omega) hchr, readlineLoop_line hpeek hb hchr,
            readnInt_eq hops (by omega) (by omega)]
          unfold readlineEnd
          cases readnAll ops (fuel+1) (poke m (buf + tot) bs) (buf + tot) (p - (buf + tot) + 1) k1 with
          | error e =>
            show (Except.error e : Res (ReadRes κ)) = Except.error e
            rfl
          | ok r =>
            show Except.ok (wrapS 32 ((tot : Int) + (p - (buf + tot) + 1 : Nat)), r.1, r.2) =
              Except.ok (((tot + (p - (buf + tot) + 1) : Nat) : Int), r.1, r.2)
            rw [← Nat.cast_add, wrapS_nat (by omega)]
        | none =>
          rw [readlineInt_more hpeek' hb (by omega) hchr, readlineLoop_more hpeek hb hle hchr, if_neg (by omega),
            readnInt_eq hops (by omega) (by omega)]
          cases hread : readnAll ops (fuel+1) (poke m (buf + tot) bs) (buf + tot) bs.length k1 with
          | error e => rfl
          | ok r =>
            obtain ⟨m1, k2⟩ := r
            have hl1 := readnAll_length hops (by omega) hread
            show readlineIntLoop ops fuel m1 (buf + tot + bs.length) ((rest : Int) - bs.length) ((tot : Int) + bs.length) k2 =
              readlineLoop ops fuel m1 (buf + tot + bs.length) (rest - bs.length) (tot + bs.length) k2
            rw [Nat.add_assoc, show (rest : Int) - bs.length = ((rest - bs.length : Nat) : Int) by omega, ← Nat.cast_add]
            exact ih (by omega) (by omega)

/-- **`readline` of `Sysutil`** is this one, in a memory whose addresses an `int` holds. -/
theorem readlineInt_eq {fuel buf len : Nat} {m : Mem} {k : κ} (hroom : buf + len ≤ m.length) (hm : m.length < 2^31) :
    readlineInt ops fuel m buf len k = readline ops fuel m buf len k := by
  have hloop : readlineIntLoop ops fuel m (buf + 0) (len : Int) ((0 : Nat) : Int) k =
      readlineLoop ops fuel m (buf + 0) len 0 k := readlineIntLoop_eq hops (by omega) hm
  unfold readlineInt readline
  rw [wrapS_nat (by omega)]
  exact hloop

end

theorem sockOps_bounded : sockOps.Bounded := by
  constructor
  · intro n k bs k' h
    change Sock.recvPeek n k = _ at h
    have hret : (Sock.recvPeek n k).1 = .got bs := congrArg Prod.fst h
    unfold Sock.recvPeek at hret
    split at hret
    · cases hret
    · exact ret_le hret
    · exact ret_le hret
  · intro n k bs k' h
    exact read_le h

theorem readCmdline_eq (k : Sock) :
    readCmdline k = readlineInt sockOps (k.script.length + roundFuel + 3) sessMem 0 MAX_COMMAND_LINE k := by
  have hl := sessMem_length
  exact (readlineInt_eq sockOps_bounded (by rw [hl]; decide) (by rw [hl]; decide)).symm

/-! ## the calls on a blocking stream -/

/-- only `EINTR` and short results -/
def Soft (plan : List Answer) : Prop := ∀ e, .fail e ∈ plan → e = .EINTR

theorem Soft.suffix {plan plan' : List Answer} (h : Soft plan) (hs : plan' <:+ plan) : Soft plan' :=
  fun e he => h e (hs.subset he)

/-- a later state of the stream, before anything was read -/
structure Later (k k' : Feed) : Prop where
  unread : k'.unread = k.unread
  fin : k'.fin = k.fin
  plan : k'.plan <:+ k.plan

theorem Later.refl (k : Feed) : Later k k := ⟨rfl, rfl, List.suffix_refl _⟩

theorem Later.tail {k k0 : Feed} (h : Later k k0) : Later k { k0 with plan := k0.plan.tail } :=
  ⟨h.unread, h.fin, (List.tail_suffix _).trans h.plan⟩

theorem Later.of_tail {k k' : Feed} (h : Later { k with plan := k.plan.tail } k') : Later k k' :=
  ⟨h.unread, h.fin, h.plan.trans (List.tail_suffix _)⟩

theorem Moved.later {k k0 k' : Feed} {m m' : Mem} {p n : Nat} (hl : Later k k0) (h : Moved m p k0 n m' k') :
    Moved m p k n m' k' :=
  ⟨hl.unread ▸ h.le, hl.unread ▸ h.mem, hl.unread ▸ h.unread, h.fin.trans hl.fin, h.plan.trans hl.plan⟩

section
variable {k k' : Feed} {n fuel : Nat} {r : Ret}

theorem recvPeek_feed (n fuel : Nat) (k : Feed) : recvPeek feedOps n (fuel+1) k =
    if k.ret n = .fail .EINTR then recvPeek feedOps n fuel { k with plan := k.plan.tail }
    else some (k.ret n, { k with plan := k.plan.tail }) := rfl

theorem recvPeek_later (h : recvPeek feedOps n fuel k = some (r, k')) :
    ∃ k0, Later k k0 ∧ k0.ret n = r ∧ k' = { k0 with plan := k0.plan.tail } := by
  induction fuel generalizing k with
  | zero => cases h
  | succ fuel ih =>
    rw [recvPeek_feed] at h
    split at h
    · obtain ⟨k0, hl, hr⟩ := ih h
      exact ⟨k0, hl.of_tail, hr⟩
    · cases h
      exact ⟨k, Later.refl k, rfl, rfl⟩

/-- with bytes to come and nothing but interruptions, `recv_peek` gets some -/
theorem recvPeek_soft (hs : Soft k.plan) (hu : k.unread ≠ []) (hf : k.plan.length + 1 ≤ fuel) :
    ∃ k0 bs, Later k k0 ∧ k0.ret n = .got bs ∧
      recvPeek feedOps n fuel k = some (.got bs, { k0 with plan := k0.plan.tail }) := by
  induction fuel generalizing k with
  | zero => omega
  | succ fuel ih =>
    rw [recvPeek_feed]
    cases hret : k.ret n with
    | got bs => exact ⟨k, bs, Later.refl k, hret, rfl⟩
    | fail e =>
      have hplan : k.plan = .fail e :: k.plan.tail := Feed.ret_fail hret (Or.inr fun h => hu h.1)
      have he : e = .EINTR := hs e (by rw [hplan]; exact List.mem_cons_self)
      rw [if_pos (by rw [he])]
      have hlen : k.plan.tail.length + 1 = k.plan.length := by
        conv_rhs => rw [hplan]
        rfl
      obtain ⟨k0, bs, hl, hr⟩ := ih (k := { k with plan := k.plan.tail }) (hs.suffix (List.tail_suffix _)) hu
        (show k.plan.tail.length + 1 ≤ fuel by omega)
      exact ⟨k0, bs, hl.of_tail, hr⟩

end

section
variable {m m' : Mem} {p n fuel : Nat} {k k' : Feed}

/-- when `readline` goes on after `readn`, it has got all the bytes -/
theorem readnInt_moved (h : readnInt feedOps fuel m p n k = .ok (m', k')) (hp : p + n ≤ m.length) :
    Moved m p k n m' k' := by
  unfold readnInt at h
  split at h
  · cases h
  · rename_i ret m1 k1 hread
    split at h
    · cases h
    · rename_i hret
      cases h
      obtain ⟨j, hm, hend⟩ := readnLoop_moved hread hp
      have hwrap : wrapS 32 ret = n := by
        by_contra hne
        exact hret hne
      cases hend with
      | full hj => exact hj ▸ hm
      | eof hj _ _ =>
        -- an `int` is no more than the number it was made of
        have hle : wrapS 32 ((n : Int) - n + j) ≤ j := by
          unfold wrapS
          omega
        omega
      | error _ _ _ _ _ =>
        have hneg : wrapS 32 (-1) = -1 := by decide
        omega

theorem readnInt_soft (hs : Soft k.plan) (hn : n ≤ k.unread.length) (hlt : n < 2^31)
    (hf : k.plan.length + 2 ≤ fuel) (hp : p + n ≤ m.length) :
    ∃ m' k', readnInt feedOps fuel m p n k = .ok (m', k') ∧ Moved m p k n m' k' := by
  obtain ⟨⟨ret, m', k'⟩, hread⟩ := readn_returns n (m := m) (p := p) (Or.inl hn) hf
  obtain ⟨j, hm, hend⟩ := readnLoop_moved hread hp
  have hret : ret = n := by
    cases hend with
    | full _ => rfl
    | eof hj he _ => omega
    | error e pre hj he hplan =>
      have hmem : Answer.fail e ∈ k.plan := by
        rw [hplan]
        simp
      exact absurd (hs e hmem) he
  have hok : readnInt feedOps fuel m p n k = .ok (m', k') := by
    unfold readnInt
    rw [show readn feedOps fuel m p n k = some (ret, m', k') from hread]
    show (if wrapS 32 ret ≠ n then _ else _) = _
    rw [hret, wrapS_nat hlt, if_neg (by simp)]
  exact ⟨m', k', hok, readnInt_moved hok hp⟩

end

/-! ## a line in its buffer -/

/-- A buffer of `len` bytes that begins with `line`; the rest of it is NULs. -/
structure Buffer (m : Mem) (buf len : Nat) (line : List UInt8) : Prop where
  room : buf + len ≤ m.length
  le : line.length ≤ len
  read : area m buf line.length = line
  zero : ∀ i, buf + line.length ≤ i → i < buf + len → m.getD i 0 = 0

theorem Buffer.zeroed {m : Mem} {buf len : Nat} (h : buf + len ≤ m.length)
    (hz : ∀ i, buf ≤ i → i < buf + len → m.getD i 0 = 0) : Buffer m buf len [] :=
  ⟨h, Nat.zero_le _, rfl, hz⟩

section
variable {m : Mem} {buf len : Nat} {line bs : List UInt8} (h : Buffer m buf len line)
include h

theorem Buffer.append (hb : line.length + bs.length ≤ len) :
    Buffer (poke m (buf + line.length) bs) buf len (line ++ bs) := by
  have hroom := h.room
  have hl : (line ++ bs).length = line.length + bs.length := List.length_append
  refine ⟨?_, by omega, ?_, ?_⟩
  · rw [poke_length (by omega)]
    exact hroom
  · rw [hl, area_add, area_poke_before (Nat.le_refl _) (by omega), h.read,
      area_poke (by omega) (Nat.le_refl _), List.take_length]
  · intro i h1 h2
    rw [getD_poke_out (by omega) (Or.inr (by omega))]
    exact h.zero i (by omega) h2

/-- the string at the place where they arrive, as long as the buffer is not full -/
theorem Buffer.cstrAt_arrived (hb : line.length + bs.length < len) :
    cstrAt (poke m (buf + line.length) bs) (buf + line.length) = cstr bs := by
  have hroom := h.room
  have hp : buf + line.length + bs.length ≤ m.length := by omega
  have hle := cstr_length_le bs
  rw [cstrAt_eq_iff]
  refine ⟨?_, fun c hc => cstr_ne_zero hc, ?_⟩
  · intro i hi
    rw [getD_poke_in hp (by omega) (by omega), Nat.add_sub_cancel_left, cstr_getD hi]
  · rcases Nat.lt_or_ge (cstr bs).length bs.length with hlt | hge
    · rw [getD_poke_in hp (by omega) (by omega), Nat.add_sub_cancel_left, cstr_getD_length]
    · rw [getD_poke_out hp (Or.inr (by omega))]
      exact h.zero _ (by omega) (by omega)

/-- a newline is found when no NUL has arrived before it -/
theorem Buffer.strchr_arrived {s t : List UInt8} (hbs : bs = s ++ LF :: t) (hb : line.length + bs.length ≤ len)
    (h0 : 0 ∉ s) (hlf : LF ∉ s) : strchr (poke m (buf + line.length) bs) (buf + line.length) LF =
      some (buf + line.length + s.length) := by
  have hroom := h.room
  have hl : s.length + 1 ≤ bs.length := by
    rw [hbs, List.length_append, List.length_cons]
    omega
  have hbegin : area (poke m (buf + line.length) bs) (buf + line.length) (s ++ [LF]).length = s ++ [LF] := by
    rw [area_poke (by omega) (by rw [List.length_append]; exact hl), hbs,
      show s ++ LF :: t = (s ++ [LF]) ++ t by simp, List.take_left]
  have hne : ∀ c ∈ s ++ [LF], c ≠ 0 := by
    rw [List.forall_mem_append, List.forall_mem_singleton]
    refine ⟨?_, by decide⟩
    intro c hc e
    exact h0 (e ▸ hc)
  obtain ⟨u, hu⟩ := cstrAt_begins hne hbegin
  apply strchr_eq_some (t := u) _ hlf
  rw [hu, List.append_assoc]
  rfl

/-- a newline behind a NUL is not found, nor is one that has not arrived -/
theorem Buffer.strchr_hidden (hb : line.length + bs.length < len) (hlf : LF ∉ cstr bs) :
    strchr (poke m (buf + line.length) bs) (buf + line.length) LF = none := by
  rw [strchr_eq_none, h.cstrAt_arrived hb]
  exact hlf

end

/-! ## one call on a stream that begins with a line -/

/-- a line with its newline, that fits the buffer -/
structure Line (len : Nat) (line : List UInt8) : Prop where
  ends : ∃ t, line = t ++ [LF] ∧ LF ∉ t
  noNul : 0 ∉ line
  fits : line.length ≤ len

section
variable {u rest bs : List UInt8} (hbs : bs = (u ++ LF :: rest).take bs.length)
include hbs

theorem arrived_long (h : u.length < bs.length) : ∃ v, bs = u ++ LF :: v := by
  refine ⟨rest.take (bs.length - u.length - 1), ?_⟩
  rw [List.take_append, List.take_of_length_le (by omega),
    show bs.length - u.length = bs.length - u.length - 1 + 1 by omega, List.take_succ_cons] at hbs
  exact hbs

theorem arrived_short (h : bs.length ≤ u.length) : bs ++ u.drop bs.length = u := by
  rw [List.take_append_of_le_length h] at hbs
  conv_lhs => rw [hbs]
  rw [List.length_take, Nat.min_eq_left h, List.take_append_drop]

theorem arrived_short_plain (h : bs.length ≤ u.length) (hlf : LF ∉ u) : LF ∉ cstr bs := by
  intro hm
  apply hlf
  rw [← arrived_short hbs h]
  exact List.mem_append_left _ ((cstr_isPrefix bs).subset hm)

end

theorem readnInt_peeked {m : Mem} {p n fuel : Nat} {bs : List UInt8} {k : Feed} (hs : Soft k.plan)
    (hbs : bs = k.unread.take bs.length) (hn : n ≤ bs.length) (hlt : n < 2^31) (hf : k.plan.length + 2 ≤ fuel)
    (hp : p + bs.length ≤ m.length) : ∃ k', readnInt feedOps fuel (poke m p bs) p n k = .ok (poke m p bs, k') ∧
      k'.unread = k.unread.drop n ∧ k'.fin = k.fin ∧ k'.plan <:+ k.plan := by
  have hle := congrArg List.length hbs
  rw [List.length_take] at hle
  obtain ⟨m', k', hok, hm⟩ := readnInt_soft (m := poke m p bs) (p := p) hs (show n ≤ k.unread.length by omega) hlt hf
    (by rw [poke_length hp]; omega)
  have hfirst : k.unread.take n = bs.take n := by
    rw [hbs, List.take_take, Nat.min_eq_left hn]
  have hmem : m' = poke m p bs := by
    rw [hm.mem, hfirst]
    conv_lhs => rw [← List.take_append_drop n bs]
    rw [List.take_left' (by rw [List.length_take]; omega), poke_again (by omega), List.take_append_drop]
  subst hmem
  exact ⟨k', hok, hm.unread, hm.fin, hm.plan⟩

theorem Feed.ret_planless {k : Feed} {n : Nat} {bs : List UInt8} (hp : k.plan = []) (h : k.ret n = .got bs) :
    bs = k.unread.take n := by
  unfold Feed.ret at h
  rw [hp] at h
  exact (Feed.arrived_got h).1

section
variable {len fuel : Nat} {m : Mem} {buf : Nat} {pre u rest bs : List UInt8} {k k0 : Feed} (hlen : len < 2^31)
  (hb : Buffer m buf len pre) (hline : Line len (pre ++ u ++ [LF])) (hlf : LF ∉ u)
  (hk : k.unread = u ++ LF :: rest) (hs : Soft k.plan) (hf : k.plan.length + 2 ≤ fuel + 1)
  (hl : Later k k0) (hret : k0.ret (len - pre.length) = .got bs)
  (hpeek : recvPeek feedOps (((len - pre.length : Nat) : Int) % 2^64).toNat (fuel+1) k =
    some (.got bs, { k0 with plan := k0.plan.tail }))
include hlen hb hline hlf hk hs hf hl hret hpeek

theorem line_found (hlong : u.length < bs.length) :
    ∃ m' k', readlineIntLoop feedOps (fuel+1) m (buf + pre.length) ((len - pre.length : Nat) : Int) pre.length k =
        .ok ((pre ++ u ++ [LF]).length, m', k') ∧
      area m' buf (pre ++ u ++ [LF]).length = pre ++ u ++ [LF] ∧ k'.unread = rest ∧ k'.fin = k.fin ∧
      k'.plan <:+ k.plan := by
  have hroom := hb.room
  have hfits := hline.fits
  have h0 : 0 ∉ u := fun hm => hline.noNul (by simp [hm])
  obtain ⟨hbs, hle, -, -⟩ := Feed.ret_got hret
  have hlater := hl.tail
  have hlineLen : (pre ++ u ++ [LF]).length = pre.length + (u.length + 1) := by
    rw [List.length_append, List.length_append, List.length_singleton, Nat.add_assoc]
  have hbs' : bs = (u ++ LF :: rest).take bs.length := hk ▸ hl.unread ▸ hbs
  obtain ⟨v, hv⟩ := arrived_long hbs' hlong
  have hchr := hb.strchr_arrived hv (by omega) h0 hlf
  have hfuel : k0.plan.tail.length + 2 ≤ fuel + 1 := by
    have hle : k0.plan.tail.length ≤ k.plan.length := hlater.plan.length_le
    omega
  obtain ⟨k', hok, hunread, hfin, hplan⟩ := readnInt_peeked (m := m) (p := buf + pre.length) (n := u.length + 1)
    (hs.suffix hlater.plan) (hbs : bs = (Feed.unread { k0 with plan := k0.plan.tail }).take bs.length)
    (by omega) (by omega) hfuel (by omega)
  refine ⟨poke m (buf + pre.length) bs, k', ?_, ?_, ?_, hfin.trans hlater.fin, hplan.trans hlater.plan⟩
  · rw [readlineInt_line hpeek (by rw [hv]; simp) (by omega) hchr, Nat.add_sub_cancel_left, hok]
    show Except.ok (wrapS 32 ((pre.length : Int) + (u.length + 1 : Nat)), _, k') = _
    rw [← Nat.cast_add, ← hlineLen, wrapS_nat (by omega)]
  · have happ : Buffer (poke m (buf + pre.length) bs) buf len (pre ++ bs) := hb.append (by omega)
    have hbuf := happ.read
    have hcut := (area_split (m := poke m (buf + pre.length) bs) (p := buf) (r := (pre ++ bs).length)
      (pre ++ u ++ [LF]).length (by rw [poke_length (by omega), List.length_append]; omega)).1
    rw [hbuf, hlineLen, Nat.min_eq_left (by rw [List.length_append]; omega)] at hcut
    rw [hlineLen, ← hcut, hv, show pre ++ (u ++ LF :: v) = (pre ++ u ++ [LF]) ++ v by simp, ← hlineLen, List.take_left]
  · rw [hunread]
    show k0.unread.drop (u.length + 1) = rest
    rw [hl.unread, hk, show u ++ LF :: rest = (u ++ [LF]) ++ rest by simp]
    exact List.drop_left' (by rw [List.length_append, List.length_singleton])

theorem line_more (hshort : bs.length ≤ u.length) : ∃ k1, Buffer (poke m (buf + pre.length) bs) buf len (pre ++ bs) ∧
    bs ++ u.drop bs.length = u ∧ k1.unread = u.drop bs.length ++ LF :: rest ∧ k1.fin = k.fin ∧ k1.plan <:+ k.plan ∧
    k1.plan.length < k.plan.length ∧
    readlineIntLoop feedOps (fuel+1) m (buf + pre.length) ((len - pre.length : Nat) : Int) pre.length k =
      readlineIntLoop feedOps fuel (poke m (buf + pre.length) bs) (buf + (pre ++ bs).length)
        ((len - (pre ++ bs).length : Nat) : Int) (pre ++ bs).length k1 := by
  have hroom := hb.room
  have hfits := hline.fits
  simp only [List.length_append, List.length_singleton] at hfits
  obtain ⟨hbs, hle, hnil, -⟩ := Feed.ret_got hret
  have hlater := hl.tail
  have hne : bs ≠ [] := by
    intro he
    have hu := (hnil he).resolve_left (by omega)
    rw [hl.unread, hk] at hu
    simp at hu
  have hbs' : bs = (u ++ LF :: rest).take bs.length := hk ▸ hl.unread ▸ hbs
  have hparts := arrived_short hbs' hshort
  have hchr := hb.strchr_hidden (by omega) (arrived_short_plain hbs' hshort hlf)
  have hfuel : k0.plan.tail.length + 2 ≤ fuel + 1 := by
    have hle : k0.plan.tail.length ≤ k.plan.length := hlater.plan.length_le
    omega
  obtain ⟨k1, hok, hunread, hfin, hplan⟩ := readnInt_peeked (m := m) (p := buf + pre.length) (n := bs.length)
    (hs.suffix hlater.plan) (hbs : bs = (Feed.unread { k0 with plan := k0.plan.tail }).take bs.length)
    (Nat.le_refl _) (by omega) hfuel (by omega)
  -- behind the plan the newline would have arrived
  have hused : k0.plan ≠ [] := by
    intro hp
    have hall := congrArg List.length (Feed.ret_planless hp hret)
    rw [hl.unread, hk, List.length_take, List.length_append, List.length_cons] at hall
    omega
  refine ⟨k1, hb.append (by omega), hparts, ?_, hfin.trans hlater.fin, hplan.trans hlater.plan, ?_, ?_⟩
  · rw [hunread]
    show k0.unread.drop bs.length = _
    rw [hl.unread, hk, List.drop_append_of_le_length hshort]
  · have h1 := hplan.length_le
    have h2 := hl.plan.length_le
    have h3 := List.length_pos_iff.mpr hused
    have h4 : k0.plan.tail.length = k0.plan.length - 1 := List.length_tail
    change k1.plan.length ≤ k0.plan.tail.length at h1
    omega
  · rw [readlineInt_more hpeek hne (by omega) hchr, if_neg (by omega), hok]
    show readlineIntLoop feedOps fuel _ (buf + pre.length + bs.length) (((len - pre.length : Nat) : Int) - bs.length)
      ((pre.length : Int) + bs.length) k1 = _
    rw [List.length_append, Nat.add_assoc, show ((len - pre.length : Nat) : Int) - bs.length =
      ((len - (pre.length + bs.length) : Nat) : Int) by omega, ← Nat.cast_add]

end

/-- **The loop on a line**: `pre` has been read, the rest of the line is still to come. -/
theorem line_loop {len fuel : Nat} {m : Mem} {buf : Nat} {pre u rest : List UInt8} {k : Feed} (hlen : len < 2^31)
    (hb : Buffer m buf len pre) (hline : Line len (pre ++ u ++ [LF])) (hlf : LF ∉ u)
    (hk : k.unread = u ++ LF :: rest) (hs : Soft k.plan) (hf : k.plan.length + 2 ≤ fuel) :
    ∃ m' k', readlineIntLoop feedOps fuel m (buf + pre.length) ((len - pre.length : Nat) : Int) pre.length k =
        .ok ((pre ++ u ++ [LF]).length, m', k') ∧
      area m' buf (pre ++ u ++ [LF]).length = pre ++ u ++ [LF] ∧ k'.unread = rest ∧ k'.fin = k.fin ∧
      k'.plan <:+ k.plan := by
  induction fuel generalizing m pre u k with
  | zero => omega
  | succ fuel ih =>
    obtain ⟨k0, bs, hl, hret, hpeek⟩ := recvPeek_soft (n := len - pre.length) hs
      (by rw [hk]; simp) (show k.plan.length + 1 ≤ fuel + 1 by omega)
    rw [← size_of_int (show len - pre.length < 2^31 by omega)] at hpeek
    rcases Nat.lt_or_ge u.length bs.length with hlong | hshort
    · exact line_found hlen hb hline hlf hk hs hf hl hret hpeek hlong
    · obtain ⟨k1, hb1, hparts, hk1, hfin1, hplan1, hless, hstep⟩ :=
        line_more hlen hb hline hlf hk hs hf hl hret hpeek hshort
      have hsame : pre ++ bs ++ u.drop bs.length ++ [LF] = pre ++ u ++ [LF] := by
        rw [List.append_assoc pre, hparts]
      have hlf1 : LF ∉ u.drop bs.length := fun hm => hlf (List.mem_of_mem_drop hm)
      obtain ⟨m', k', hok, harea, hunread, hfin, hplan⟩ := ih hb1 (hsame ▸ hline) hlf1 hk1 (hs.suffix hplan1) (by omega)
      rw [hsame] at hok harea
      exact ⟨m', k', hstep.trans hok, harea, hunread, hfin.trans hfin1, hplan.trans hplan1⟩

/-! ## calls one after the other -/

/-- `n` calls, each on the fresh buffer: what each returned, and that many bytes of the buffer -/
def readLines {κ : Type} (ops : SockOps κ) (fuel : Nat) (m : Mem) (buf len : Nat) :
    Nat → κ → Res (List (Int × List UInt8) × κ)
  | 0, k => .ok ([], k)
  | n+1, k => do
    let (ret, m', k) ← readlineInt ops fuel m buf len k
    let (rs, k) ← readLines ops fuel m buf len n k
    return ((ret, area m' buf ret.toNat) :: rs, k)

/-- Lines that fit the buffer come out whole and in order, and nothing else is consumed, however the stream is cut
into arrivals. -/
def Frames (len : Nat) : Prop := ∀ m buf, Buffer m buf len [] → ∀ lines : List (List UInt8),
  (∀ line ∈ lines, Line len line) → ∀ rest fin plan fuel, 0 ∉ rest → Soft plan → plan.length + 2 ≤ fuel →
    ∃ k', readLines feedOps fuel m buf len lines.length ⟨lines.flatten ++ rest, fin, plan⟩ =
        .ok (lines.map fun line => ((line.length : Int), line), k') ∧ k'.unread = rest ∧ k'.fin = fin

section
variable {len fuel : Nat} {m : Mem} {buf : Nat} {k : Feed}

theorem readLines_succ {ret : Int} {m' : Mem} {k1 k2 : Feed} {n : Nat} {rs : List (Int × List UInt8)}
    (h1 : readlineInt feedOps fuel m buf len k = .ok (ret, m', k1))
    (h2 : readLines feedOps fuel m buf len n k1 = .ok (rs, k2)) :
    readLines feedOps fuel m buf len (n+1) k = .ok ((ret, area m' buf ret.toNat) :: rs, k2) := by
  show (readlineInt feedOps fuel m buf len k >>= fun r =>
    readLines feedOps fuel m buf len n r.2.2 >>= fun p => .ok ((r.1, area r.2.1 buf r.1.toNat) :: p.1, p.2)) = _
  rw [h1]
  show (readLines feedOps fuel m buf len n k1 >>= fun p => .ok ((ret, area m' buf ret.toNat) :: p.1, p.2)) = _
  rw [h2]
  rfl

theorem line_read {line rest : List UInt8} (hlen : len < 2^31) (hb : Buffer m buf len []) (hl : Line len line)
    (hk : k.unread = line ++ rest) (hs : Soft k.plan) (hf : k.plan.length + 2 ≤ fuel) :
    ∃ m' k', readlineInt feedOps fuel m buf len k = .ok (line.length, m', k') ∧ area m' buf line.length = line ∧
      k'.unread = rest ∧ k'.fin = k.fin ∧ k'.plan <:+ k.plan := by
  obtain ⟨t, rfl, hlf⟩ := hl.ends
  have hcall := line_loop (u := t) hlen hb hl hlf (show k.unread = t ++ LF :: rest by rw [hk]; simp) hs hf
  unfold readlineInt
  rw [wrapS_nat hlen]
  exact hcall

theorem lines_read {lines : List (List UInt8)} {rest : List UInt8} (hlen : len < 2^31) (hb : Buffer m buf len [])
    (hl : ∀ line ∈ lines, Line len line) (hk : k.unread = lines.flatten ++ rest) (hs : Soft k.plan)
    (hf : k.plan.length + 2 ≤ fuel) : ∃ k', readLines feedOps fuel m buf len lines.length k =
      .ok (lines.map fun line => ((line.length : Int), line), k') ∧ k'.unread = rest ∧ k'.fin = k.fin := by
  induction lines generalizing k with
  | nil => exact ⟨k, rfl, hk, rfl⟩
  | cons line lines ih =>
    rw [List.flatten_cons, List.append_assoc] at hk
    obtain ⟨m', k1, hcall, harea, hunread, hfin, hplan⟩ :=
      line_read hlen hb (hl line List.mem_cons_self) hk hs hf
    obtain ⟨k2, hrest, hend⟩ := ih (fun l h => hl l (List.mem_cons_of_mem _ h)) hunread (hs.suffix hplan)
      (by have := hplan.length_le; omega)
    refine ⟨k2, ?_, hend.1, hend.2.trans hfin⟩
    rw [List.length_cons, readLines_succ hcall hrest, List.map_cons, Int.toNat_natCast, harea]

end

/-! ## lengths that are no `int`, and bytes that hide the newline -/

section
variable {fuel r cap buf : Nat} {tot : Int} {m : Mem} {k : Feed} {w q : List UInt8} {fin : Bool}

theorem no_room (hq : q ≠ []) : readlineIntLoop feedOps (fuel+1) m buf 0 tot ⟨q, fin, []⟩ = .ok (0, m, ⟨q, fin, []⟩) := by
  apply readlineInt_stop
  have hret : Feed.ret ⟨q, fin, []⟩ 0 = .got [] := Feed.arrived_of (fun h => hq h.1) 0
  show recvPeek feedOps 0 (fuel+1) ⟨q, fin, []⟩ = _
  rw [recvPeek_feed, hret]
  rfl

theorem readnInt_once {p n : Nat} {bs : List UInt8} (h : k.ret n = .got bs) (hn : bs.length = n) (h0 : 0 < n)
    (hlt : n < 2^31) : readnInt feedOps (fuel+2) m p n k =
      .ok (poke m p bs, { k with unread := k.unread.drop n, plan := k.plan.tail }) := by
  have hne : bs ≠ [] := List.length_pos_iff.mp (by omega)
  have hread : readn feedOps (fuel+2) m p n k =
      some ((n : Int), poke m p bs, { k with unread := k.unread.drop n, plan := k.plan.tail }) := by
    unfold readn
    rw [readnLoop_got (by omega) (Feed.read_got h), if_neg hne, hn, Nat.sub_self, readnLoop_zero]
  unfold readnInt
  rw [hread]
  show (if wrapS 32 (n : Int) ≠ n then _ else _) = _
  rw [wrapS_nat hlt, if_neg (by simp)]

/-- **A round that sees no newline** reads all that it peeked, whatever the bytes are. -/
theorem blind_round (fuel : Nat) (hb : Buffer m buf cap []) (hr : r < 2^31) (hw : w ≠ []) (hcap : w.length < cap)
    (hlf : LF ∉ cstr w) (hret : k.ret r = .got w)
    (hret' : Feed.ret { k with plan := k.plan.tail } w.length = .got w) :
    readlineIntLoop feedOps (fuel+2) m buf (r : Int) 0 k =
      readlineIntLoop feedOps (fuel+1) (poke m buf w) (buf + w.length) ((r - w.length : Nat) : Int) w.length
        { k with unread := k.unread.drop w.length, plan := k.plan.tail.tail } := by
  have hle := (Feed.ret_got hret).2.1
  have hroom := hb.room
  have hpeek : recvPeek feedOps ((r : Int) % 2^64).toNat (fuel+1+1) k = some (.got w, { k with plan := k.plan.tail }) := by
    rw [size_of_int hr, recvPeek_feed, hret, if_neg (by simp)]
  have hchr : strchr (poke m buf w) buf LF = none := hb.strchr_hidden (by simpa using hcap) hlf
  have hsame : poke (poke m buf w) buf w = poke m buf w := by
    have h := poke_again (m := m) (p := buf) (s := w) (t := []) (by omega)
    rwa [List.append_nil] at h
  rw [readlineInt_more hpeek hw (by omega) hchr, if_neg (by omega),
    readnInt_once hret' rfl (List.length_pos_iff.mpr hw) (by omega), hsame]
  show readlineIntLoop feedOps (fuel+1) _ (buf + w.length) ((r : Int) - w.length) (0 + w.length) _ = _
  rw [show (r : Int) - w.length = ((r - w.length : Nat) : Int) by omega, Int.zero_add]

end

theorem wrapS_32 (z : Int) : -2^31 ≤ wrapS 32 z ∧ wrapS 32 z < 2^31 := by
  show -2^31 ≤ (z + 2^31) % 2^32 - 2^31 ∧ (z + 2^31) % 2^32 - 2^31 < 2^31
  omega

theorem buffer_replicate (len : Nat) : Buffer (List.replicate len 0) 0 len [] :=
  Buffer.zeroed (by simp) fun i _ _ => getD_replicate_zero len i

section
variable {len : Nat} (h : Frames len)
include h

theorem Frames.one {line : List UInt8} {plan : List Answer} (hl : Line len line) (hs : Soft plan) :
    ∃ m' k', readlineInt feedOps (plan.length + 2) (List.replicate len 0) 0 len ⟨line, false, plan⟩ =
      .ok ((line.length : Int), m', k') := by
  obtain ⟨k', hread, -⟩ := h _ 0 (buffer_replicate len) [line] (List.forall_mem_singleton.mpr hl) [] false plan
    (plan.length + 2) List.not_mem_nil hs (Nat.le_refl _)
  simp only [List.flatten_cons, List.flatten_nil, List.append_nil, List.length_singleton] at hread
  obtain ⟨⟨ret, m1, k1⟩, hcall, hrest⟩ := bind_ok.mp hread
  obtain ⟨⟨rs, k2⟩, -, hend⟩ := bind_ok.mp hrest
  have hpair := (Prod.mk.inj (Except.ok.inj hend)).1
  have hret : ret = line.length := congrArg Prod.fst (List.cons.inj hpair).1
  exact ⟨m1, k1, hret ▸ hcall⟩

/-- a negative `rest`: the first byte of `a\n` comes alone, and the guard stops the process -/
theorem Frames.nonneg (hlen : 2 ≤ len) : 0 ≤ wrapS 32 len := by
  by_contra hneg
  have hline : Line len [97, LF] := ⟨⟨[97], rfl, by decide⟩, by decide, hlen⟩
  obtain ⟨m', k', hread⟩ := h.one hline (show Soft [.upTo 0] by simp [Soft])
  obtain ⟨hlo, -⟩ := wrapS_32 len
  have hpeek : ∀ n, 1 ≤ n → recvPeek feedOps n (2+1) ⟨[97, LF], false, [.upTo 0]⟩ =
      some (.got [97], ⟨[97, LF], false, []⟩) := by
    intro n hn
    have hret : Feed.ret ⟨[97, LF], false, [.upTo 0]⟩ n = .got [97] := by
      show Feed.arrived _ (min n 1) = _
      rw [Nat.min_eq_right hn, Feed.arrived_of (by simp)]
      rfl
    rw [recvPeek_feed, hret, if_neg (by simp)]
    rfl
  have hchr : strchr (poke (List.replicate len 0) 0 [97]) 0 LF = none :=
    (buffer_replicate len).strchr_hidden (by simp; omega) (by decide)
  unfold readlineInt at hread
  rw [show [Answer.upTo 0].length + 2 = 2 + 1 from rfl, readlineInt_more (hpeek _ (by omega)) (by simp) (by simp) hchr,
    if_pos (by simp; omega)] at hread
  cases hread

/-- **Only an `int` will do** for the length of the buffer: otherwise there is too little room for a line that
fits. -/
theorem Frames.lt : len < 2^31 := by
  by_contra hge
  have hpos := h.nonneg (by omega)
  obtain ⟨-, hhi⟩ := wrapS_32 len
  obtain ⟨r, hr⟩ : ∃ r : Nat, wrapS 32 len = r := ⟨_, (Int.toNat_of_nonneg hpos).symm⟩
  rw [hr] at hhi
  have hline : Line len (List.replicate r 97 ++ [LF]) := by
    refine ⟨⟨_, rfl, ?_⟩, ?_, ?_⟩
    · simp [List.mem_replicate, LF]
    · simp [List.mem_replicate, LF]
    · simp
      omega
  obtain ⟨m', k', hread⟩ := h.one hline (show Soft [] by simp [Soft])
  unfold readlineInt at hread
  rw [hr] at hread
  cases r with
  | zero =>
    rw [List.length_nil, Nat.zero_add, List.replicate_zero, List.nil_append,
      show ((0 : Nat) : Int) = 0 from rfl, no_room (by simp)] at hread
    simp at hread
  | succ r =>
    have hret : Feed.ret ⟨List.replicate (r+1) 97 ++ [LF], false, []⟩ (r+1) = .got (List.replicate (r+1) 97) := by
      show Feed.arrived _ (r+1) = _
      rw [Feed.arrived_of (by simp)]
      exact congrArg _ (List.take_left' List.length_replicate)
    have hlf : LF ∉ cstr (List.replicate (r+1) (97 : UInt8)) := by
      intro hm
      have := List.eq_of_mem_replicate ((cstr_isPrefix _).subset hm)
      cases this
    have hround := blind_round 0 (buffer_replicate len) (by omega) (by simp) (by rw [List.length_replicate]; omega) hlf hret
      (by rw [List.length_replicate]; exact hret)
    rw [List.length_nil, hround] at hread
    simp only [List.length_replicate, Nat.sub_self] at hread
    rw [List.drop_left' List.length_replicate, show ((0 : Nat) : Int) = 0 from rfl] at hread
    rw [show ([] : List Answer).tail.tail = [] from rfl, no_room (by simp)] at hread
    simp at hread
    omega

end

/-- **Framing**: lines come out whole and in order for the buffer lengths that an `int` holds, and for no other. -/
theorem frames_iff (len : Nat) : Frames len ↔ len < 2^31 := by
  constructor
  · intro h
    exact h.lt
  · intro hlen m buf hb lines hl rest fin plan fuel _ hs hf
    exact lines_read hlen hb hl rfl hs hf

/-- a buffer of 2 GiB: `rest` is negative -/
theorem frames_overflow : ¬ Frames (2^31) := by
  intro h
  exact absurd h.lt (Nat.lt_irrefl _)

end Myftpd
