import Myftpd.Output

/-!
# readn and writen: every byte once

`Feed` is the receive side of a blocking socket: the bytes the peer sends and that were not read, whether it
closes the connection behind them, and a plan of what the next calls do.  A call gets some of the bytes it
asks for, or fails.

* `Moved`           bytes have gone from the socket to the memory;
* `readnLoop_moved`  what the loop of `readn` has moved when it returns, and why it returned;
* `readn_returns`   it does return when the bytes are there, or the peer closes;
* `writenLoop`      the loop of `writen` with its pointer and its return value;
* `bytes_once`      the two together.
-/

namespace Myftpd
open CMem

/-- what one call does -/
inductive Answer where
  | upTo (k : Nat)         -- it gets at most `k+1` bytes
  | fail (e : Errno)
  deriving DecidableEq, Repr

/-- a blocking socket; a call behind the plan gets all it asks for -/
structure Feed where
  unread : List UInt8
  fin : Bool
  plan : List Answer
  deriving DecidableEq, Repr

/-- `n` bytes or fewer.  A call with nothing to come waits for ever: it is one that is interrupted again and
again. -/
def Feed.arrived (k : Feed) (n : Nat) : Ret :=
  if k.unread = [] ∧ k.fin = false then .fail .EINTR else .got (k.unread.take n)

/-- what a call for at most `n` bytes gives -/
def Feed.ret (k : Feed) (n : Nat) : Ret :=
  match k.plan with
  | .fail e :: _ => .fail e
  | .upTo c :: _ => k.arrived (min n (c+1))
  | [] => k.arrived n

def Ret.count : Ret → Nat
  | .got bs => bs.length
  | .fail _ => 0

def Feed.peek (n : Nat) (k : Feed) : Ret × Feed := (k.ret n, { k with plan := k.plan.tail })

def Feed.read (n : Nat) (k : Feed) : Ret × Feed :=
  (k.ret n, { k with unread := k.unread.drop (k.ret n).count, plan := k.plan.tail })

def feedOps : SockOps Feed := ⟨Feed.peek, Feed.read⟩

/-! ## one call -/

section
variable {k : Feed} {n : Nat} {bs : List UInt8} {e : Errno}

theorem Feed.arrived_got (h : k.arrived n = .got bs) : bs = k.unread.take n ∧ (k.unread = [] → k.fin = true) := by
  unfold Feed.arrived at h
  split at h
  · cases h
  · rename_i hw
    refine ⟨(Ret.got.inj h).symm, ?_⟩
    intro h0
    simpa [h0] using hw

theorem Feed.arrived_fail (h : k.arrived n = .fail e) : e = .EINTR := by
  unfold Feed.arrived at h
  split at h
  · exact (Ret.fail.inj h).symm
  · cases h

/-- The bytes a call gets are the next ones; it gets none when it asks for none, or at the end of the stream. -/
theorem Feed.ret_got (h : k.ret n = .got bs) : bs = k.unread.take bs.length ∧ bs.length ≤ n ∧
    (bs = [] → n = 0 ∨ k.unread = []) ∧ (k.unread = [] → k.fin = true) := by
  have hsome : ∃ j, j ≤ n ∧ (0 < n → 0 < j) ∧ k.arrived j = .got bs := by
    unfold Feed.ret at h
    split at h
    · cases h
    · rename_i c _ _
      exact ⟨min n (c+1), by omega, by omega, h⟩
    · exact ⟨n, Nat.le_refl n, id, h⟩
  obtain ⟨j, hj, hpos, ha⟩ := hsome
  obtain ⟨rfl, hfin⟩ := Feed.arrived_got ha
  refine ⟨?_, ?_, ?_, hfin⟩
  · rw [List.take_eq_take_iff, List.length_take]
    omega
  · rw [List.length_take]
    omega
  · intro he
    apply (List.take_eq_nil_iff.mp he).imp_left
    omega

theorem Feed.arrived_of (h : ¬ (k.unread = [] ∧ k.fin = false)) (n : Nat) : k.arrived n = .got (k.unread.take n) :=
  if_neg h

theorem Feed.ret_fail (h : k.ret n = .fail e) (he : e ≠ .EINTR ∨ ¬ (k.unread = [] ∧ k.fin = false)) :
    k.plan = .fail e :: k.plan.tail := by
  have harrived : ∀ j, k.arrived j ≠ .fail e := by
    intro j hj
    rcases he with he | hcome
    · exact he (Feed.arrived_fail hj)
    · rw [Feed.arrived_of hcome] at hj
      cases hj
  unfold Feed.ret at h
  split at h
  · rename_i e' t hp
    rw [hp, Ret.fail.inj h]
    rfl
  · exact absurd h (harrived _)
  · exact absurd h (harrived _)

theorem Feed.read_fail (h : k.ret n = .fail e) : feedOps.read n k = (.fail e, { k with plan := k.plan.tail }) := by
  show (k.ret n, _) = _
  simp [h, Ret.count]

theorem Feed.read_got (h : k.ret n = .got bs) : feedOps.read n k =
    (.got bs, { k with unread := k.unread.drop bs.length, plan := k.plan.tail }) := by
  show (k.ret n, _) = _
  simp [h, Ret.count]

end

/-! ## bytes on their way -/

/-- `n` bytes have gone from the socket to the memory at `p`, and nothing else has changed. -/
structure Moved (m : Mem) (p : Nat) (k : Feed) (n : Nat) (m' : Mem) (k' : Feed) : Prop where
  le : n ≤ k.unread.length
  mem : m' = poke m p (k.unread.take n)
  unread : k'.unread = k.unread.drop n
  fin : k'.fin = k.fin
  plan : k'.plan <:+ k.plan

section
variable {m m' m1 : Mem} {p n j : Nat} {k k' k1 : Feed}

theorem Moved.none (hk : k'.unread = k.unread) (hf : k'.fin = k.fin) (hp : k'.plan <:+ k.plan) :
    Moved m p k 0 m k' :=
  ⟨Nat.zero_le _, by rw [List.take_zero, poke_nil], by rw [hk, List.drop_zero], hf, hp⟩

theorem Moved.trans (h1 : Moved m p k n m1 k1) (h2 : Moved m1 (p + n) k1 j m' k') (hp : p ≤ m.length) :
    Moved m p k (n + j) m' k' := by
  have hle := h1.le
  have hlen : (k.unread.take n).length = n := by
    rw [List.length_take]
    omega
  have hle2 := h2.le
  rw [h1.unread, List.length_drop] at hle2
  refine ⟨by omega, ?_, ?_, h2.fin.trans h1.fin, h2.plan.trans h1.plan⟩
  · have happ := poke_append (s := k.unread.take n) (t := (k.unread.drop n).take j) hp
    rw [hlen] at happ
    rw [h2.mem, h1.mem, h1.unread, happ, List.take_add]
  · rw [h2.unread, h1.unread, List.drop_drop]

theorem Moved.length (h : Moved m p k n m' k') (hp : p + n ≤ m.length) : m'.length = m.length := by
  have hle := h.le
  rw [h.mem, poke_length]
  rw [List.length_take]
  omega

end

theorem moved_read {k : Feed} {n : Nat} {bs : List UInt8} (m : Mem) (p : Nat) (h : k.ret n = .got bs) :
    Moved m p k bs.length (poke m p bs) { k with unread := k.unread.drop bs.length, plan := k.plan.tail } := by
  obtain ⟨hb, -⟩ := Feed.ret_got h
  have hle := congrArg List.length hb
  rw [List.length_take] at hle
  exact ⟨by omega, congrArg _ hb, rfl, rfl, List.tail_suffix _⟩

/-! ## readn -/

section
variable {κ : Type} {ops : SockOps κ} {cnt fuel p rest : Nat} {m : Mem} {k k' : κ}

theorem readnLoop_zero : readnLoop ops cnt (fuel+1) m p 0 k = some ((cnt : Int), m, k) := by
  rw [readnLoop, if_pos rfl]

theorem readnLoop_fail {e : Errno} (h0 : rest ≠ 0) (h : ops.read rest k = (.fail e, k')) :
    readnLoop ops cnt (fuel+1) m p rest k =
      if e = .EINTR then readnLoop ops cnt fuel m p rest k' else some (-1, m, k') := by
  rw [readnLoop, if_neg h0, h]

theorem readnLoop_got {bs : List UInt8} (h0 : rest ≠ 0) (h : ops.read rest k = (.got bs, k')) :
    readnLoop ops cnt (fuel+1) m p rest k = if bs = [] then some ((cnt : Int) - rest, m, k')
      else readnLoop ops cnt fuel (poke m p bs) (p + bs.length) (rest - bs.length) k' := by
  rw [readnLoop, if_neg h0, h]

end

/-- why `readn` returned `ret`, with `n` bytes moved of the `rest` that were missing -/
inductive ReadnEnd (cnt rest : Nat) (k : Feed) (n : Nat) (k' : Feed) : Int → Prop where
  | full (h : n = rest) : ReadnEnd cnt rest k n k' cnt
  | eof (h : n < rest) (hn : n = k.unread.length) (hf : k.fin = true) : ReadnEnd cnt rest k n k' (cnt - rest + n)
  | error (e : Errno) (pre : List Answer) (h : n < rest) (he : e ≠ .EINTR) (hp : k.plan = pre ++ .fail e :: k'.plan) :
      ReadnEnd cnt rest k n k' (-1)

theorem ReadnEnd.after {cnt r n j : Nat} {m m1 : Mem} {p : Nat} {k k1 k' : Feed} {ret : Int}
    (h : ReadnEnd cnt (r - n) k1 j k' ret) (hm : Moved m p k n m1 k1) (hn : n ≤ r) :
    ReadnEnd cnt r k (n + j) k' ret := by
  have hle := hm.le
  cases h with
  | full h => exact .full (by omega)
  | eof h hj hf =>
    rw [hm.unread, List.length_drop] at hj
    rw [show (cnt : Int) - (r - n : Nat) + j = cnt - r + (n + j : Nat) by omega]
    exact .eof (by omega) (by omega) (hm.fin ▸ hf)
  | error e pre h he hp =>
    obtain ⟨t, ht⟩ := hm.plan
    refine .error e (t ++ pre) (by omega) he ?_
    rw [← ht, hp, List.append_assoc]

/-- **The loop of `readn`**: what it has moved when it returns, and why it returned. -/
theorem readnLoop_moved {cnt fuel : Nat} {m m' : Mem} {p rest : Nat} {k k' : Feed} {ret : Int}
    (h : readnLoop feedOps cnt fuel m p rest k = some (ret, m', k')) (hp : p + rest ≤ m.length) :
    ∃ n, Moved m p k n m' k' ∧ ReadnEnd cnt rest k n k' ret := by
  induction fuel generalizing m p rest k with
  | zero => cases h
  | succ fuel ih =>
    by_cases h0 : rest = 0
    · subst h0
      rw [readnLoop_zero] at h
      cases h
      exact ⟨0, Moved.none rfl rfl (List.suffix_refl _), .full rfl⟩
    cases hret : k.ret rest with
    | fail e =>
      have hstay : Moved m p k 0 m { k with plan := k.plan.tail } := Moved.none rfl rfl (List.tail_suffix _)
      rw [readnLoop_fail h0 (Feed.read_fail hret)] at h
      split at h
      · obtain ⟨n, hm, hend⟩ := ih h hp
        have hall := hstay.trans (j := n) hm (by omega)
        have hafter := hend.after (r := rest) hstay (Nat.zero_le _)
        rw [Nat.zero_add] at hall hafter
        exact ⟨n, hall, hafter⟩
      · rename_i he
        cases h
        exact ⟨0, hstay, .error e [] (by omega) he (Feed.ret_fail hret (Or.inl he))⟩
    | got bs =>
      obtain ⟨hb, hle, hnil, hfin⟩ := Feed.ret_got hret
      have hmove := moved_read m p hret
      rw [readnLoop_got h0 (Feed.read_got hret)] at h
      split at h
      · rename_i hbs
        cases h
        have hu : k.unread = [] := (hnil hbs).resolve_left h0
        have hf := hfin hu
        subst hbs
        rw [poke_nil] at hmove
        have hend : ReadnEnd cnt rest k 0 { k with unread := k.unread.drop 0, plan := k.plan.tail } (cnt - rest + (0 : Nat)) :=
          .eof (by omega) (by rw [hu]; rfl) hf
        rw [Int.natCast_zero, Int.add_zero] at hend
        exact ⟨0, hmove, hend⟩
      · have hroom : p + bs.length + (rest - bs.length) ≤ (poke m p bs).length := by
          rw [poke_length (by omega)]
          omega
        obtain ⟨n, hm, hend⟩ := ih h hroom
        exact ⟨bs.length + n, hmove.trans hm (by omega), hend.after hmove hle⟩

/-- nothing is missing, or nothing is to come: the loop returns -/
theorem readnLoop_last {cnt fuel : Nat} {m : Mem} {p rest : Nat} {k : Feed} (hk : k.plan = [])
    (h : rest = 0 ∨ k.unread = [] ∧ k.fin = true) : ∃ r, readnLoop feedOps cnt (fuel+1) m p rest k = some r := by
  by_cases h0 : rest = 0
  · subst h0
    exact ⟨_, readnLoop_zero⟩
  · obtain ⟨hu, hf⟩ := h.resolve_left h0
    have hret : k.ret rest = .got [] := by
      unfold Feed.ret Feed.arrived
      simp [hk, hu, hf]
    rw [readnLoop_got h0 (Feed.read_got hret), if_pos rfl]
    exact ⟨_, rfl⟩

/-- **`readn` returns** when the bytes are there or the peer closes. -/
theorem readn_returns (cnt : Nat) {fuel : Nat} {m : Mem} {p rest : Nat} {k : Feed}
    (hd : rest ≤ k.unread.length ∨ k.fin = true) (hf : k.plan.length + 2 ≤ fuel) :
    ∃ r, readnLoop feedOps cnt fuel m p rest k = some r := by
  induction fuel generalizing m p rest k with
  | zero => omega
  | succ fuel ih =>
    by_cases h0 : rest = 0
    · subst h0
      exact ⟨_, readnLoop_zero⟩
    have hcome : ¬ (k.unread = [] ∧ k.fin = false) := by
      intro hw
      rw [hw.1, hw.2] at hd
      simp only [List.length_nil, Bool.false_eq_true, or_false] at hd
      omega
    cases hp : k.plan with
    | nil =>
      obtain ⟨fuel, rfl⟩ : ∃ f, fuel = f + 1 := ⟨fuel - 1, by omega⟩
      have hret : k.ret rest = .got (k.unread.take rest) := by
        unfold Feed.ret
        rw [hp]
        exact Feed.arrived_of hcome rest
      rw [readnLoop_got h0 (Feed.read_got hret)]
      split
      · exact ⟨_, rfl⟩
      · apply readnLoop_last
        · show k.plan.tail = []
          rw [hp]
          rfl
        · show rest - _ = 0 ∨ k.unread.drop _ = [] ∧ k.fin = true
          rw [List.length_take, List.drop_eq_nil_iff]
          rcases Nat.le_total rest k.unread.length with hle | hle
          · left
            omega
          · by_cases he : rest = k.unread.length
            · left
              omega
            · right
              exact ⟨by omega, hd.resolve_left (by omega)⟩
    | cons a t =>
      rw [hp, List.length_cons] at hf
      cases hret : k.ret rest with
      | fail e =>
        rw [readnLoop_fail h0 (Feed.read_fail hret)]
        split
        · apply ih
          · exact hd
          show k.plan.tail.length + 2 ≤ fuel
          rw [hp, List.tail_cons]
          omega
        · exact ⟨_, rfl⟩
      | got bs =>
        rw [readnLoop_got h0 (Feed.read_got hret)]
        split
        · exact ⟨_, rfl⟩
        · apply ih
          · show rest - bs.length ≤ (k.unread.drop bs.length).length ∨ k.fin = true
            rw [List.length_drop]
            apply hd.imp_left
            intro hle
            omega
          · show k.plan.tail.length + 2 ≤ fuel
            rw [hp, List.tail_cons]
            omega

/-! ## writen -/

/-- The loop of `writen`, with `rest` bytes of `cnt` still to be written from `wbuf` on, on a socket that answers
`write` as in the list: the return value, `none` if the call has not returned yet, and the bytes that went out. -/
def writenLoop (m : Mem) (cnt : Nat) : Nat → Nat → List IoRes → Option Int × List UInt8
  | _, 0, _ => (some cnt, [])
  | _, _+1, [] => (none, [])
  | wbuf, rest+1, .ok n :: os =>
    -- `write` never takes more than it is given; after 0 the loop goes on
    let n := min n (rest+1)
    let r := writenLoop m cnt (wbuf + n) (rest+1 - n) os
    (r.1, area m wbuf n ++ r.2)
  | wbuf, rest+1, .intr :: os => writenLoop m cnt wbuf (rest+1) os
  | _, _+1, .err :: _ => (some (-1), [])

/-- why `writen` returned or has not returned yet, when it has written `sent` of `buf` -/
inductive WritenEnd (cnt : Nat) (buf sent : List UInt8) (os : List IoRes) : Option Int → Prop where
  | full (h : sent = buf) : WritenEnd cnt buf sent os (some cnt)
  | waits (h : sent ≠ buf) : WritenEnd cnt buf sent os none
  | error (pre post : List IoRes) (h : sent ≠ buf) (hp : os = pre ++ .err :: post) (hn : .err ∉ pre) :
      WritenEnd cnt buf sent os (some (-1))

theorem WritenEnd.after {cnt : Nat} {buf sent : List UInt8} {os : List IoRes} {ret : Option Int} {o : IoRes}
    (h : WritenEnd cnt buf sent os ret) (ho : o ≠ .err) (front : List UInt8) :
    WritenEnd cnt (front ++ buf) (front ++ sent) (o :: os) ret := by
  cases h with
  | full h => exact .full (by rw [h])
  | waits h => exact .waits fun e => h (List.append_cancel_left e)
  | error pre post h hp hn =>
    refine .error (o :: pre) post (fun e => h (List.append_cancel_left e)) (by rw [hp]; rfl) ?_
    rw [List.mem_cons, not_or]
    exact ⟨ho.symm, hn⟩

/-- **The loop of `writen`**: a prefix of the buffer goes out, and why the call returned. -/
theorem writenLoop_end {m : Mem} (cnt : Nat) (os : List IoRes) {wbuf rest : Nat} (hin : wbuf + rest ≤ m.length) :
    (writenLoop m cnt wbuf rest os).2 <+: area m wbuf rest ∧
      WritenEnd cnt (area m wbuf rest) (writenLoop m cnt wbuf rest os).2 os (writenLoop m cnt wbuf rest os).1 := by
  induction os generalizing wbuf rest with
  | nil =>
    cases rest with
    | zero => exact ⟨List.prefix_rfl, .full rfl⟩
    | succ rest =>
      refine ⟨List.nil_prefix, .waits ?_⟩
      intro h
      have hl := area_length hin
      rw [← h] at hl
      cases hl
  | cons o os ih =>
    cases rest with
    | zero => exact ⟨List.prefix_rfl, .full rfl⟩
    | succ rest =>
      cases o with
      | err =>
        refine ⟨List.nil_prefix, .error [] os ?_ rfl List.not_mem_nil⟩
        intro h
        have hl := area_length hin
        rw [← h] at hl
        cases hl
      | intr =>
        obtain ⟨hpre, hend⟩ := ih hin
        exact ⟨hpre, hend.after (by decide) []⟩
      | ok n =>
        have hcut : area m wbuf (rest+1) =
            area m wbuf (min n (rest+1)) ++ area m (wbuf + min n (rest+1)) (rest+1 - min n (rest+1)) := by
          rw [← area_add]
          congr 1
          omega
        have hnext : wbuf + min n (rest+1) + (rest+1 - min n (rest+1)) ≤ m.length := by omega
        obtain ⟨hpre, hend⟩ := ih hnext
        rw [hcut]
        refine ⟨?_, hend.after (by simp) _⟩
        show area m wbuf (min n (rest+1)) ++ _ <+: _
        exact (List.prefix_append_right_inj _).mpr hpre

/-- `writen` of `Output`, which has no pointer, lets the same bytes through and returns at the same time. -/
theorem writen_bytes {m : Mem} (cnt : Nat) {os : List IoRes} {wbuf rest : Nat} (hin : wbuf + rest ≤ m.length) :
    (writen (area m wbuf rest) os).1 = (writenLoop m cnt wbuf rest os).2 ∧
      ((writen (area m wbuf rest) os).2 = none ↔ (writenLoop m cnt wbuf rest os).1 = none) := by
  induction os generalizing wbuf rest with
  | nil =>
    cases rest with
    | zero => exact ⟨rfl, nofun, nofun⟩
    | succ rest =>
      obtain ⟨b, bs, hb⟩ := List.exists_cons_of_length_eq_add_one (area_length hin)
      rw [hb]
      exact ⟨rfl, fun _ => rfl, fun _ => rfl⟩
  | cons o os ih =>
    cases rest with
    | zero => exact ⟨rfl, nofun, nofun⟩
    | succ rest =>
      obtain ⟨b, bs, hb⟩ := List.exists_cons_of_length_eq_add_one (area_length hin)
      cases o with
      | err =>
        rw [hb]
        exact ⟨rfl, nofun, nofun⟩
      | intr =>
        have hstep : writen (area m wbuf (rest+1)) (.intr :: os) = writen (area m wbuf (rest+1)) os := by
          rw [hb]
          rfl
        rw [hstep]
        exact ih hin
      | ok n =>
        have hstep : writen (area m wbuf (rest+1)) (.ok n :: os) =
            ((area m wbuf (rest+1)).take n ++ (writen ((area m wbuf (rest+1)).drop n) os).1,
              (writen ((area m wbuf (rest+1)).drop n) os).2) := by
          rw [hb]
          rfl
        obtain ⟨htake, hdrop⟩ := area_split n hin
        have hnext : wbuf + min n (rest+1) + (rest+1 - min n (rest+1)) ≤ m.length := by omega
        obtain ⟨h1, h2⟩ := ih hnext
        rw [hstep, htake, hdrop]
        exact ⟨congrArg (area m wbuf (min n (rest+1)) ++ ·) h1, h2⟩

/-! ## the two together -/

/-- **Every byte once.**  When `readn` returns `cnt`, the first `cnt` bytes of the stream have gone to the buffer;
when it returns less, the stream was at its end and all of it has; when it returns -1, a call failed other than
with `EINTR`.  What `writen` has written is a prefix of its buffer at all times, all of it exactly when it returns
`cnt`, and it returns -1 only when a call failed other than with `EINTR`. -/
theorem bytes_once : (∀ fuel m buf cnt k ret m' k', buf + cnt ≤ m.length →
      readn feedOps fuel m buf cnt k = some (ret, m', k') →
      (ret = cnt → Moved m buf k cnt m' k') ∧
      (0 ≤ ret → ret < cnt → Moved m buf k ret.toNat m' k' ∧ k.fin = true ∧ k'.unread = []) ∧
      (ret < 0 → ret = -1 ∧ ∃ pre e, e ≠ .EINTR ∧ k.plan = pre ++ .fail e :: k'.plan)) ∧
    ∀ m buf cnt os, buf + cnt ≤ m.length →
      (writenLoop m cnt buf cnt os).2 <+: area m buf cnt ∧
      ((writenLoop m cnt buf cnt os).1 = some (cnt : Int) ↔ (writenLoop m cnt buf cnt os).2 = area m buf cnt) ∧
      ((writenLoop m cnt buf cnt os).1 = some (-1) → .err ∈ os) := by
  constructor
  · intro fuel m buf cnt k ret m' k' hin h
    obtain ⟨n, hm, hend⟩ := readnLoop_moved h hin
    have hle := hm.le
    cases hend with
    | full hn =>
      subst hn
      refine ⟨fun _ => hm, fun _ hlt => ?_, fun hlt => ?_⟩ <;> omega
    | eof hlt hn hf =>
      refine ⟨fun he => ?_, fun _ _ => ⟨?_, hf, ?_⟩, fun hneg => ?_⟩
      · omega
      · rwa [show ((cnt : Int) - cnt + n).toNat = n by omega]
      · rw [hm.unread, hn, List.drop_length]
      · omega
    | error e pre hlt he hp =>
      refine ⟨fun h1 => ?_, fun h1 _ => ?_, fun _ => ⟨rfl, pre, e, he, hp⟩⟩ <;> omega
  · intro m buf cnt os hin
    obtain ⟨hpre, hend⟩ := writenLoop_end cnt os hin
    refine ⟨hpre, ?_⟩
    generalize (writenLoop m cnt buf cnt os).1 = ret at hend
    cases hend with
    | full h =>
      refine ⟨⟨fun _ => h, fun _ => rfl⟩, fun he => ?_⟩
      have := Option.some.inj he
      omega
    | waits h => exact ⟨⟨nofun, fun h' => absurd h' h⟩, nofun⟩
    | error pre post h hp hn =>
      refine ⟨⟨fun he => ?_, fun h' => absurd h' h⟩, fun _ => ?_⟩
      · have := Option.some.inj he
        omega
      · rw [hp]
        simp

/-- `abc` read in two pieces with an interruption between them, and written in two pieces -/
theorem bytes_once_abc : Moved [0, 0, 0] 0 ⟨ascii "abc", false, [.upTo 0, .fail .EINTR]⟩ 3 (ascii "abc") ⟨[], false, []⟩ ∧
    (writenLoop (ascii "abc") 3 0 3 [.ok 2, .intr, .ok 0, .ok 1]).2 <+: area (ascii "abc") 0 3 := by
  have hread : readn feedOps 10 [0, 0, 0] 0 3 ⟨ascii "abc", false, [.upTo 0, .fail .EINTR]⟩ =
      some (3, ascii "abc", ⟨[], false, []⟩) := by decide
  exact ⟨(bytes_once.1 10 [0, 0, 0] 0 3 _ 3 _ _ (by decide) hread).1 rfl,
    (bytes_once.2 (ascii "abc") 0 3 [.ok 2, .intr, .ok 0, .ok 1] (by decide)).1⟩

end Myftpd
