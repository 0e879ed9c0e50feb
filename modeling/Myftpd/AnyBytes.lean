import Myftpd.Readline

/-!
# readline on any bytes

`readline` looks for the newline with `strchr`, so a NUL hides what stands behind it; and when the buffer is full
it asks `recv` for no byte, which gives 0.

* `PeekRound`, `peekRound_of`   what one round does, on any plan;
* `seen_newline`        the newline stands in the buffer's length and no NUL before it;
* `short_stream`        no newline stands before the last byte, and the buffer holds the whole stream;
* `onLine_iff`           the streams on which no byte too many is consumed and no end is announced too early.
-/

namespace Myftpd
open CMem

/-! ## one round -/

/-- What one round has done when the call returns `ret`: it returned at once, or it saw a newline at `p`, or it
went on behind the bytes `bs`. -/
inductive PeekRound (fuel : Nat) (m : Mem) (rbuf r : Nat) (tot : Int) (k : Feed) (ret : Int) (m' : Mem) (k' : Feed) : Prop
  | fail (h : ret = -1) (hl : k'.unread = k.unread) : PeekRound fuel m rbuf r tot k ret m' k'
  | stop (h : ret = 0) (hr : r = 0 ∨ k.unread = []) (hf : k.unread = [] → k.fin = true) (hl : k'.unread = k.unread) :
      PeekRound fuel m rbuf r tot k ret m' k'
  | line (bs : List UInt8) (p : Nat) (hbs : bs = k.unread.take bs.length) (hle : bs.length ≤ r)
      (hc : strchr (poke m rbuf bs) rbuf LF = some p) (h : ret = wrapS 32 (tot + (p - rbuf + 1 : Nat)))
      (hm : Moved (poke m rbuf bs) rbuf k (p - rbuf + 1) m' k') : PeekRound fuel m rbuf r tot k ret m' k'
  | more (bs : List UInt8) (k1 : Feed) (hbs : bs = k.unread.take bs.length) (hne : bs ≠ []) (hle : bs.length ≤ r)
      (hc : strchr (poke m rbuf bs) rbuf LF = none) (hm : Moved (poke m rbuf bs) rbuf k bs.length (poke m rbuf bs) k1)
      (h : readlineIntLoop feedOps fuel (poke m rbuf bs) (rbuf + bs.length) ((r - bs.length : Nat) : Int)
        (tot + bs.length) k1 = .ok (ret, m', k')) : PeekRound fuel m rbuf r tot k ret m' k'

section
variable {fuel rbuf r len : Nat} {m m' : Mem} {tot ret : Int} {k k' : Feed}

/-- **One round**, whatever the calls do. -/
theorem peekRound_of (hr : r < 2^31) (hroom : rbuf + r ≤ m.length)
    (h : readlineIntLoop feedOps (fuel+1) m rbuf (r : Int) tot k = .ok (ret, m', k')) :
    PeekRound fuel m rbuf r tot k ret m' k' := by
  cases hpeek : recvPeek feedOps ((r : Int) % 2^64).toNat (fuel+1) k with
  | none =>
    rw [readlineIntLoop, hpeek] at h
    cases h
  | some res =>
    obtain ⟨res, k1⟩ := res
    obtain ⟨k0, hl, hret, rfl⟩ := recvPeek_later hpeek
    have hlater := hl.tail
    cases res with
    | fail e =>
      rw [readlineInt_fail hpeek] at h
      cases h
      exact .fail rfl hl.unread
    | got bs =>
      rw [size_of_int hr] at hret
      obtain ⟨hbs, hle, hnil, hfin⟩ := Feed.ret_got hret
      rw [hl.unread] at hbs hnil hfin
      by_cases hb : bs = []
      · subst hb
        rw [readlineInt_stop hpeek] at h
        cases h
        exact .stop rfl (hnil rfl) (fun hu => hl.fin ▸ hfin hu) hl.unread
      have hlen : (poke m rbuf bs).length = m.length := poke_length (by omega)
      cases hc : strchr (poke m rbuf bs) rbuf LF with
      | some p =>
        rw [readlineInt_line hpeek hb (by omega) hc] at h
        obtain ⟨⟨m1, k2⟩, hread, he⟩ := bind_ok.mp h
        cases he
        obtain ⟨hlo, hhi⟩ := strchr_lt hc
        exact .line bs p hbs hle hc rfl ((readnInt_moved hread (by omega)).later hlater)
      | none =>
        rw [readlineInt_more hpeek hb (by omega) hc, if_neg (by omega)] at h
        obtain ⟨⟨m1, k2⟩, hread, he⟩ := bind_ok.mp h
        have hm := (readnInt_moved hread (by omega)).later hlater
        have hsame : m1 = poke m rbuf bs := by
          have hagain := poke_again (m := m) (p := rbuf) (s := bs) (t := []) (by omega)
          rw [List.append_nil] at hagain
          rw [hm.mem, ← hbs, hagain]
        subst hsame
        refine .more bs k2 hbs hb hle hc hm ?_
        rwa [show (r : Int) - bs.length = ((r - bs.length : Nat) : Int) by omega] at he

/-- **The newline is in sight**: no NUL hides it and the buffer holds it.  The call consumes nothing behind it and
does not return 0. -/
theorem seen_newline {buf : Nat} {pre u rest : List UInt8} (hlen : len < 2^31) (hb : Buffer m buf len pre) (hlf : LF ∉ u)
    (h0 : 0 ∉ u) (hfit : pre.length + u.length < len) (hk : k.unread = u ++ LF :: rest)
    (h : readlineIntLoop feedOps fuel m (buf + pre.length) ((len - pre.length : Nat) : Int) pre.length k =
      .ok (ret, m', k')) : ret ≠ 0 ∧ ∃ c, c ≤ u.length + 1 ∧ k'.unread = k.unread.drop c := by
  induction fuel generalizing m pre u k with
  | zero => cases h
  | succ fuel ih =>
    have hroom := hb.room
    cases peekRound_of (by omega) (by omega) h with
    | fail hret hl => exact ⟨by omega, 0, Nat.zero_le _, hl⟩
    | stop _ hr _ _ =>
      rw [hk] at hr
      rcases hr with hr | hr
      · omega
      · simp at hr
    | line bs p hbs hle hc hret hm =>
      rw [hk] at hbs
      rcases Nat.lt_or_ge u.length bs.length with hlong | hshort
      · obtain ⟨v, hv⟩ := arrived_long hbs hlong
        have hchr := hb.strchr_arrived hv (by omega) h0 hlf
        obtain rfl : p = buf + pre.length + u.length := Option.some.inj (hc.symm.trans hchr)
        rw [Nat.add_sub_cancel_left] at hret hm
        rw [← Nat.cast_add, wrapS_nat (by omega)] at hret
        exact ⟨by omega, u.length + 1, Nat.le_refl _, hm.unread⟩
      · rw [hb.strchr_hidden (by omega) (arrived_short_plain hbs hshort hlf)] at hc
        cases hc
    | more bs k1 hbs hne hle hc hm hnext =>
      rw [hk] at hbs
      rcases Nat.lt_or_ge u.length bs.length with hlong | hshort
      · obtain ⟨v, hv⟩ := arrived_long hbs hlong
        rw [hb.strchr_arrived hv (by omega) h0 hlf] at hc
        cases hc
      · have hparts := arrived_short hbs hshort
        have hk1 : k1.unread = u.drop bs.length ++ LF :: rest := by
          rw [hm.unread, hk, List.drop_append_of_le_length hshort]
        have hl : (pre ++ bs).length = pre.length + bs.length := List.length_append
        have hdrop : (u.drop bs.length).length = u.length - bs.length := List.length_drop
        rw [Nat.add_assoc, ← hl, Nat.sub_sub, ← hl, ← Nat.cast_add, ← hl] at hnext
        obtain ⟨hret, c, hc1, hc2⟩ := ih (hb.append (by omega)) (fun hm => hlf (List.mem_of_mem_drop hm))
          (fun hm => h0 (List.mem_of_mem_drop hm)) (by omega) hk1 hnext
        refine ⟨hret, bs.length + c, by omega, ?_⟩
        rw [hc2, hm.unread, List.drop_drop]

/-- **No newline but at the end of the stream, which fits the buffer**: the call returns 0 only when the peer has
closed and everything is read. -/
theorem short_stream (hr : r < 2^31) (hroom : rbuf + r ≤ m.length) (htot : 0 ≤ tot) (hsum : tot + r < 2^31)
    (hk : k.unread.length ≤ r)
    (h : readlineIntLoop feedOps fuel m rbuf (r : Int) tot k = .ok (ret, m', k')) :
    (ret = 0 → k.fin = true ∧ k'.unread = []) ∧ k'.unread <:+ k.unread := by
  induction fuel generalizing m rbuf r tot k with
  | zero => cases h
  | succ fuel ih =>
    cases peekRound_of hr hroom h with
    | fail hret hl => exact ⟨fun h0 => by omega, hl ▸ List.suffix_refl _⟩
    | stop _ hr0 hf hl =>
      have hnil : k.unread = [] := by
        rcases hr0 with hr0 | hr0
        · exact List.length_eq_zero_iff.mp (by omega)
        · exact hr0
      exact ⟨fun _ => ⟨hf hnil, hl.trans hnil⟩, hl ▸ List.suffix_refl _⟩
    | line bs p hbs hle hc hret hm =>
      have hn := hm.le
      rw [wrapS_of_lt (by decide) (by omega) (by omega)] at hret
      refine ⟨fun h0 => by omega, ?_⟩
      rw [hm.unread]
      exact List.drop_suffix _ _
    | more bs k1 hbs hne hle hc hm hnext =>
      have hlen : (poke m rbuf bs).length = m.length := poke_length (by omega)
      have hk1 : k1.unread.length ≤ r - bs.length := by
        rw [hm.unread, List.length_drop]
        omega
      obtain ⟨hzero, hsuf⟩ := ih (by omega) (by omega) (by omega) (by omega) hk1 hnext
      refine ⟨fun h0 => hm.fin ▸ hzero h0, hsuf.trans ?_⟩
      rw [hm.unread]
      exact List.drop_suffix _ _

end

/-! ## staying on the line -/

/-- A call consumes nothing behind the first newline of the stream, and returns 0 only at its end. -/
def StaysOnLine (q : List UInt8) (fin : Bool) (len : Nat) : Prop := ∀ m buf plan fuel ret m' k', Buffer m buf len [] →
  readlineInt feedOps fuel m buf len ⟨q, fin, plan⟩ = .ok (ret, m', k') →
    (∃ c, k'.unread = q.drop c ∧ (LF ∈ q → c ≤ q.idxOf LF + 1)) ∧ (ret = 0 → fin = true ∧ k'.unread = [])

section
variable {q : List UInt8} {fin : Bool} {len : Nat}

theorem idxOf_of_dropLast (h : LF ∉ q.dropLast) (hm : LF ∈ q) : q.length ≤ q.idxOf LF + 1 := by
  by_contra hlt
  have hi := List.idxOf_lt_length_of_mem hm
  apply h
  rw [List.mem_iff_getElem]
  refine ⟨q.idxOf LF, ?_, ?_⟩
  · rw [List.length_dropLast]
    omega
  · rw [List.getElem_dropLast, List.getElem_idxOf]

theorem idxOf_lt_dropLast (h : LF ∈ q.dropLast) : q.idxOf LF + 1 < q.length := by
  have hi := List.idxOf_lt_length_of_mem h
  have hne : q ≠ [] := by
    intro he
    rw [he] at h
    cases h
  have hparts := List.dropLast_append_getLast hne
  have hidx : q.idxOf LF = q.dropLast.idxOf LF := by
    conv_lhs => rw [← hparts]
    rw [List.idxOf_append, if_pos h]
  rw [List.length_dropLast] at hi
  omega

theorem onLine_of_sight (hlen : len < 2^31) (h : LF ∈ cstr (q.take len)) : StaysOnLine q fin len := by
  intro m buf plan fuel ret m' k' hb hread
  obtain ⟨u, v, hu, hlf⟩ := List.eq_append_cons_of_mem h
  obtain ⟨w, hw⟩ := (cstr_isPrefix (q.take len)).trans (List.take_prefix len q)
  have hq : q = u ++ LF :: (v ++ w) := by
    rw [← hw, hu]
    simp
  have h0 : 0 ∉ u := by
    intro hm
    have hmem : 0 ∈ cstr (q.take len) := hu ▸ List.mem_append_left _ hm
    exact cstr_ne_zero hmem rfl
  have hfit : u.length < len := by
    have h1 := cstr_length_le (q.take len)
    rw [hu, List.length_append, List.length_cons, List.length_take] at h1
    omega
  unfold readlineInt at hread
  rw [wrapS_nat hlen] at hread
  obtain ⟨hret, c, hc, hdrop⟩ := seen_newline hlen hb hlf h0 (by simpa using hfit) hq hread
  have hidx : q.idxOf LF = u.length := by
    rw [hq, List.idxOf_append, if_neg hlf, List.idxOf_cons_self, Nat.zero_add]
  exact ⟨⟨c, hdrop, fun _ => by omega⟩, fun he => absurd he hret⟩

theorem onLine_of_short (hlen : len < 2^31) (hlf : LF ∉ q.dropLast) (hle : q.length ≤ len) : StaysOnLine q fin len := by
  intro m buf plan fuel ret m' k' hb hread
  have hroom := hb.room
  unfold readlineInt at hread
  rw [wrapS_nat hlen] at hread
  obtain ⟨hzero, t, ht⟩ := short_stream hlen hroom (Int.le_refl 0) (by omega) hle hread
  change t ++ k'.unread = q at ht
  refine ⟨⟨t.length, ?_, ?_⟩, hzero⟩
  · rw [← ht, List.drop_left]
  · intro hm
    have h1 := idxOf_of_dropLast hlf hm
    have h2 := congrArg List.length ht
    rw [List.length_append] at h2
    omega

theorem buffer_longer (len : Nat) : Buffer (List.replicate (len + 1) 0) 0 len [] :=
  Buffer.zeroed (by simp) fun i _ _ => getD_replicate_zero _ i

/-- more bytes than the buffer holds: it fills up, and 0 is returned with bytes to come -/
theorem StaysOnLine.le (h : StaysOnLine q fin len) (hlen : len < 2^31) (hlf : LF ∉ cstr (q.take len)) : q.length ≤ len := by
  by_contra hgt
  have hq : q ≠ [] := by
    intro he
    rw [he] at hgt
    exact hgt (Nat.zero_le _)
  have hrest : q.drop len ≠ [] := by
    intro he
    exact hgt (List.drop_eq_nil_iff.mp he)
  have htake : (q.take len).length = len := by
    rw [List.length_take]
    omega
  have hret : Feed.ret ⟨q, fin, []⟩ len = .got (q.take len) :=
    Feed.arrived_of (fun hn => hq hn.1) len
  obtain ⟨m', k', hread, hunread⟩ : ∃ m' k', readlineInt feedOps 2 (List.replicate (len + 1) 0) 0 len ⟨q, fin, []⟩ =
      .ok (0, m', k') ∧ k'.unread = q.drop len := by
    unfold readlineInt
    rw [wrapS_nat hlen]
    cases hl : len with
    | zero => exact ⟨_, _, no_room hq, rfl⟩
    | succ l =>
      rw [← hl]
      have hround := blind_round 0 (buffer_replicate (len + 1)) hlen (List.length_pos_iff.mp (by omega))
        (by omega) hlf hret (by rw [htake]; exact hret)
      rw [htake, Nat.sub_self] at hround
      exact ⟨_, _, hround.trans (no_room hrest), rfl⟩
  have hempty := ((h _ 0 [] 2 0 m' k' (buffer_longer len) hread).2 rfl).2
  exact hrest (hunread.symm.trans hempty)

/-- a newline that no call can see: the bytes behind it are consumed too -/
theorem StaysOnLine.not_mem (h : StaysOnLine q fin len) (hlen : len < 2^31) (hlf : LF ∉ cstr (q.take len)) (hle : q.length ≤ len) :
    LF ∉ q.dropLast := by
  intro hm
  have hidx := idxOf_lt_dropLast hm
  have hq : q ≠ [] := List.length_pos_iff.mp (by omega)
  rw [List.take_of_length_le hle] at hlf
  have hret : ∀ n plan, q.length ≤ n → Feed.ret ⟨q, fin, .upTo q.length :: plan⟩ n = .got q := by
    intro n plan hn
    have hall : q.take (min n (q.length + 1)) = q := List.take_of_length_le (by omega)
    show Feed.arrived _ (min n (q.length + 1)) = _
    rw [Feed.arrived_of (fun hn => hq hn.1)]
    exact congrArg _ hall
  -- the peer resets the connection once everything is read
  have hround := blind_round 0 (buffer_replicate (len + 1)) hlen hq (by omega) hlf
    (hret len [.upTo q.length, .fail .ECONNRESET] hle) (hret q.length [.fail .ECONNRESET] (Nat.le_refl _))
  obtain ⟨m', k', hread, hunread⟩ : ∃ m' k', readlineInt feedOps 2 (List.replicate (len + 1) 0) 0 len
      ⟨q, fin, [.upTo q.length, .upTo q.length, .fail .ECONNRESET]⟩ = .ok (-1, m', k') ∧ k'.unread = q.drop q.length := by
    unfold readlineInt
    rw [wrapS_nat hlen]
    refine ⟨_, ⟨q.drop q.length, fin, []⟩, hround.trans (readlineInt_fail (e := .ECONNRESET) ?_), rfl⟩
    rw [recvPeek_feed]
    rfl
  obtain ⟨⟨c, hc, hbound⟩, -⟩ := h _ 0 _ 2 _ m' k' (buffer_longer len) hread
  rw [hunread] at hc
  have hcle := congrArg List.length hc
  rw [List.drop_length, List.length_nil, List.length_drop] at hcle
  have := hbound (List.mem_of_mem_dropLast hm)
  omega

/-- **Staying on the line.**  Nothing behind the first newline is consumed and no end is announced too early, on every
plan, when the newline stands within the buffer's length with no NUL before it, or when no newline stands before the
last byte and the buffer holds the whole stream; and only then. -/
theorem onLine_iff (hlen : len < 2^31) : StaysOnLine q fin len ↔
    LF ∈ cstr (q.take len) ∨ LF ∉ q.dropLast ∧ q.length ≤ len := by
  constructor
  · intro h
    by_cases hlf : LF ∈ cstr (q.take len)
    · exact Or.inl hlf
    · have hle := h.le hlen hlf
      exact Or.inr ⟨h.not_mem hlen hlf hle, hle⟩
  · intro h
    rcases h with h | ⟨h, hle⟩
    · exact onLine_of_sight hlen h
    · exact onLine_of_short hlen h hle

end

theorem onLine_noop : StaysOnLine (ascii "NOOP" ++ [CR, LF]) false MAX_COMMAND_LINE ↔
    LF ∈ cstr ((ascii "NOOP" ++ [CR, LF]).take MAX_COMMAND_LINE) ∨
      LF ∉ (ascii "NOOP" ++ [CR, LF]).dropLast ∧ (ascii "NOOP" ++ [CR, LF]).length ≤ MAX_COMMAND_LINE :=
  onLine_iff (by decide)

/-- a NUL before the newline, and a byte behind it -/
theorem onLine_hidden : ¬ ∀ q fin, StaysOnLine q fin MAX_COMMAND_LINE := by
  intro h
  have hnot := (h [0, LF, 65] false).not_mem (by decide) (by decide) (by decide)
  exact hnot (by decide)

end Myftpd
