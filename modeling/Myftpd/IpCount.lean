import Myftpd.Map
import Myftpd.Epoll

/-!
# ftpepoll.cpp: the connections of every address

`handle_ip_count` and `drop_ip_count` keep their counts in the cells of `s_ip_count_hash`, a table with 256
buckets.

* `Hash.handleIpCount`, `Hash.dropIpCount`  the two routines on the table;
* `handle_spec`, `drop_spec`                what they do to the map that the table holds;
* `handle_server`                           the count of the server model is that of the table;
* `run_counts`                              the counts after any calls;
* `ip_counts_exact`                         they are exact, and calls for other addresses do not disturb them.
-/

namespace Myftpd

/-- `handle_ip_count(ip)`: the new count, and the table -/
def Hash.handleIpCount (h : Hash UInt32) (ip : Key) : HashRes (UInt32 × Hash UInt32) := do
  match ← hashLookupEntry h ip with
  | none => return (1, ← hashAddEntry h ip 1)
  | some pcnt =>
    match h.value pcnt with
    | none => .error .crash
    | some n =>
      let cnt := n + 1
      return (cnt, ← hashWrite h pcnt cnt)

/-- `drop_ip_count(ip)` -/
def Hash.dropIpCount (h : Hash UInt32) (ip : Key) : HashRes (Hash UInt32) := do
  match ← hashLookupEntry h ip with
  | none => return h
  | some pcnt =>
    match h.value pcnt with
    | none => .error .crash
    | some n =>
      if n ≤ 0 then return h
      else
        let ret := n - 1
        let h ← hashWrite h pcnt ret
        if ret = 0 then hashFreeEntry h ip else return h

/-- what is stored for an address -/
def Hash.entry (h : Hash UInt32) (ip : Key) : HashRes (Option UInt32) := do
  return (← hashLookupEntry h ip).bind h.value

inductive IpCall where
  | handle (ip : Key)
  | drop (ip : Key)
  deriving DecidableEq, Repr

namespace IpCall

def ip : IpCall → Key
  | handle ip => ip
  | drop ip => ip

/-- the call; `drop_ip_count` gives no number back -/
def run (h : Hash UInt32) : IpCall → HashRes (Option UInt32 × Hash UInt32)
  | handle ip => do
    let (n, h) ← h.handleIpCount ip
    return (some n, h)
  | drop ip => do return (none, ← h.dropIpCount ip)

/-- the calls one after the other, and the numbers they gave back -/
def runAll (h : Hash UInt32) : List IpCall → HashRes (List (Option UInt32) × Hash UInt32)
  | [] => .ok ([], h)
  | c :: cs => do
    let (n, h) ← c.run h
    let (ns, h) ← runAll h cs
    return (n :: ns, h)

/-- a counter for every address -/
def step (f : Key → Nat) : IpCall → Key → Nat
  | handle ip => Function.update f ip (f ip + 1)
  | drop ip => Function.update f ip (f ip - 1)

/-- what the call should give back -/
def answer (f : Key → Nat) : IpCall → Option Nat
  | handle ip => some (f ip + 1)
  | drop _ => none

/-- the counters after the calls -/
def tally (f : Key → Nat) (cs : List IpCall) : Key → Nat := cs.foldl step f

/-- what the calls should give back -/
def answers (f : Key → Nat) : List IpCall → List (Option Nat)
  | [] => []
  | c :: cs => c.answer f :: answers (c.step f) cs

/-- the increments -/
def handles (cs : List IpCall) : Nat := cs.countP fun c => match c with | handle _ => true | drop _ => false

end IpCall

/-- the map of the counters: an address whose counter is 0 has no entry -/
def countMap (f : Key → Nat) (ip : Key) : Option UInt32 := if f ip = 0 then none else some (UInt32.ofNat (f ip))

section
variable {h : Hash UInt32} {m : Key → Option UInt32} {f : Key → Nat} {ip j : Key}

theorem entry_spec (hm : Models h m) (ip : Key) : h.entry ip = .ok (m ip) := by
  obtain ⟨r, hr, hv, -, -⟩ := lookup_spec hm ip
  unfold Hash.entry
  rw [hash_bind hr, hv]
  rfl

/-- **`handle_ip_count`** adds 1 modulo 2^32. -/
theorem handle_spec (hm : Models h m) (ip : Key) : ∃ h', h.handleIpCount ip = .ok ((m ip).getD 0 + 1, h') ∧
    Models h' (Function.update m ip (some ((m ip).getD 0 + 1))) := by
  obtain ⟨r, hr, hv, hnone, hfind⟩ := lookup_spec hm ip
  unfold Hash.handleIpCount
  rw [hash_bind hr]
  cases r with
  | none =>
    obtain ⟨h', hadd, hm', -⟩ := add_spec hm ip 1
    have h0 := hnone.mp rfl
    unfold addTo at hm'
    rw [h0] at hm' ⊢
    exact ⟨h', hash_bind hadd, hm'⟩
  | some p =>
    have hp := (hfind p).mp rfl
    obtain ⟨n, hn⟩ := value_of_keyOf hp
    obtain ⟨h', hwrite, hm', -⟩ := write_spec hm hp (n + 1)
    have hmi : m ip = some n := by rw [← hm.value_eq hp, hn]
    rw [hmi]
    dsimp only
    rw [hn]
    exact ⟨h', hash_bind hwrite, hm'⟩

/-- **`drop_ip_count`** takes 1 away, and the entry with the last one. -/
theorem drop_spec (hm : Models h m) (ip : Key) : ∃ h', h.dropIpCount ip = .ok h' ∧ Models h'
    (match m ip with
    | none => m
    | some n => if n = 0 then m else Function.update m ip (if n = 1 then none else some (n - 1))) := by
  obtain ⟨r, hr, hv, hnone, hfind⟩ := lookup_spec hm ip
  unfold Hash.dropIpCount
  rw [hash_bind hr]
  cases r with
  | none =>
    rw [hnone.mp rfl]
    exact ⟨h, rfl, hm⟩
  | some p =>
    have hp := (hfind p).mp rfl
    obtain ⟨n, hn⟩ := value_of_keyOf hp
    have hmi : m ip = some n := by rw [← hm.value_eq hp, hn]
    rw [hmi]
    dsimp only
    rw [hn]
    dsimp only
    by_cases h0 : n = 0
    · rw [if_pos h0, if_pos (by rw [h0]; exact UInt32.le_refl 0)]
      exact ⟨h, rfl, hm⟩
    · have hle : ¬ n ≤ 0 := fun hle => h0 (UInt32.le_antisymm hle (UInt32.zero_le))
      obtain ⟨h', hwrite, hm', -⟩ := write_spec hm hp (n - 1)
      rw [if_neg h0, if_neg hle, hash_bind hwrite]
      by_cases h1 : n = 1
      · obtain ⟨h'', hfree, hm'', -⟩ := free_spec hm' ip
        rw [Function.update_idem] at hm''
        rw [if_pos h1, if_pos (by rw [h1]; rfl)]
        exact ⟨h'', hfree, hm''⟩
      · have hne : ¬ n - 1 = 0 := by grind
        rw [if_neg h1, if_neg hne]
        exact ⟨h', rfl, hm'⟩

/-- **The count of the server model** is the one of the table that holds its counts. -/
theorem handle_server {s : Server} {n : Nat} (hn : n < 2 ^ 32)
    (hm : Models h fun k => (s.sIpCount k.toNat).map UInt32.ofNat) : ∃ h',
    h.handleIpCount (UInt32.ofNat n) = .ok (UInt32.ofNat (handleIpCount s n), h') ∧ Models h' fun k =>
      (Function.update s.sIpCount n (some (handleIpCount s n)) k.toNat).map UInt32.ofNat := by
  have hkey : (UInt32.ofNat n).toNat = n := UInt32.toNat_ofNat_of_lt' hn
  have hcount : ((s.sIpCount (UInt32.ofNat n).toNat).map UInt32.ofNat).getD 0 + 1 = UInt32.ofNat (handleIpCount s n) := by
    unfold handleIpCount
    rw [hkey]
    cases s.sIpCount n with
    | none => rfl
    | some a =>
      show UInt32.ofNat a + 1 = UInt32.ofNat ((a + 1) % 2 ^ 32)
      rw [UInt32.ofNat_mod_size, UInt32.ofNat_add]
      rfl
  obtain ⟨h', hok, hm'⟩ := handle_spec hm (UInt32.ofNat n)
  rw [hcount] at hok hm'
  refine ⟨h', hok, ?_⟩
  have hmap : (fun k : Key => (Function.update s.sIpCount n (some (handleIpCount s n)) k.toNat).map UInt32.ofNat) =
      Function.update (fun k : Key => (s.sIpCount k.toNat).map UInt32.ofNat) (UInt32.ofNat n)
        (some (UInt32.ofNat (handleIpCount s n))) := by
    funext k
    by_cases e : k = UInt32.ofNat n
    · rw [e, Function.update_self, hkey, Function.update_self]
      rfl
    · have hne : k.toNat ≠ n := fun hk => e (by rw [← hk, UInt32.ofNat_toNat])
      rw [Function.update_of_ne e, Function.update_of_ne hne]
  rw [hmap]
  exact hm'

/-! ## the counters -/

theorem ofNat_eq_zero {n : Nat} (hn : n < 2 ^ 32) : UInt32.ofNat n = 0 ↔ n = 0 := by
  rw [← UInt32.toNat_inj, UInt32.toNat_ofNat_of_lt' hn]
  rfl

theorem countMap_update (f : Key → Nat) (ip : Key) (n : Nat) :
    Function.update (countMap f) ip (if n = 0 then none else some (UInt32.ofNat n)) =
      countMap (Function.update f ip n) := by
  funext j
  unfold countMap
  by_cases e : j = ip
  · rw [e, Function.update_self, Function.update_self]
  · rw [Function.update_of_ne e, Function.update_of_ne e]

theorem countMap_toNat (hf : f ip < 2 ^ 32) :
    (countMap f ip).map UInt32.toNat = if f ip = 0 then none else some (f ip) := by
  unfold countMap
  split
  · rfl
  · rw [Option.map_some, UInt32.toNat_ofNat_of_lt' hf]

/-- **One call**: the table goes on holding the counters. -/
theorem call_counts (hm : Models h (countMap f)) (c : IpCall) (hf : f c.ip + IpCall.handles [c] < 2 ^ 32) : ∃ n h',
    c.run h = .ok (n, h') ∧ n.map UInt32.toNat = c.answer f ∧ Models h' (countMap (c.step f)) := by
  cases c with
  | handle ip =>
    change f ip + 1 < 2 ^ 32 at hf
    have hnew : (countMap f ip).getD 0 + 1 = UInt32.ofNat (f ip + 1) := by
      unfold countMap
      rw [UInt32.ofNat_add]
      split
      · rename_i e
        rw [e]
        rfl
      · rfl
    obtain ⟨h', hok, hm'⟩ := handle_spec hm ip
    rw [hnew] at hok hm'
    refine ⟨some (UInt32.ofNat (f ip + 1)), h', hash_bind hok, ?_, ?_⟩
    · rw [Option.map_some, UInt32.toNat_ofNat_of_lt' hf]
      rfl
    · have hmap := countMap_update f ip (f ip + 1)
      rw [if_neg (Nat.succ_ne_zero _)] at hmap
      rw [hmap] at hm'
      exact hm'
  | drop ip =>
    change f ip < 2 ^ 32 at hf
    obtain ⟨h', hok, hm'⟩ := drop_spec hm ip
    refine ⟨none, h', hash_bind hok, rfl, ?_⟩
    show Models h' (countMap (Function.update f ip (f ip - 1)))
    rw [← countMap_update]
    by_cases h0 : f ip = 0
    · have hself : countMap f ip = none := if_pos h0
      rw [hself] at hm'
      rw [h0, if_pos rfl, ← hself, Function.update_eq_self]
      exact hm'
    · have hself : countMap f ip = some (UInt32.ofNat (f ip)) := if_neg h0
      have hone : UInt32.ofNat (f ip) = 1 ↔ f ip - 1 = 0 := by
        rw [← UInt32.toNat_inj, UInt32.toNat_ofNat_of_lt' hf]
        show f ip = 1 ↔ _
        omega
      have hpred : UInt32.ofNat (f ip) - 1 = UInt32.ofNat (f ip - 1) := by
        have hsucc : UInt32.ofNat (f ip) = UInt32.ofNat (f ip - 1) + 1 := by
          rw [← UInt32.ofNat_one, ← UInt32.ofNat_add, Nat.sub_add_cancel (Nat.pos_of_ne_zero h0)]
        rw [hsucc, UInt32.add_sub_cancel]
      rw [hself] at hm'
      dsimp only at hm'
      rw [if_neg fun e => h0 ((ofNat_eq_zero hf).mp e), hpred] at hm'
      simp only [hone] at hm'
      exact hm'

theorem step_le (c : IpCall) (f : Key → Nat) (j : Key) : c.step f j ≤ f j + IpCall.handles [c] := by
  cases c with
  | handle ip =>
    show Function.update f ip (f ip + 1) j ≤ f j + 1
    rw [Function.update_apply]
    split
    · rename_i e
      rw [e]
    · exact Nat.le_succ _
  | drop ip =>
    show Function.update f ip (f ip - 1) j ≤ f j
    rw [Function.update_apply]
    split
    · rename_i e
      rw [e]
      exact Nat.sub_le _ _
    · exact Nat.le_refl _

theorem handles_cons (c : IpCall) (cs : List IpCall) :
    IpCall.handles (c :: cs) = IpCall.handles [c] + IpCall.handles cs := by
  unfold IpCall.handles
  rw [← List.countP_append, List.singleton_append]

theorem tally_le (cs : List IpCall) : ∀ (f : Key → Nat) (j : Key), IpCall.tally f cs j ≤ f j + IpCall.handles cs := by
  induction cs with
  | nil => exact fun f j => Nat.le_refl _
  | cons c cs ih =>
    intro f j
    have hstep := step_le c f j
    have hrest := ih (c.step f) j
    rw [handles_cons]
    show IpCall.tally (c.step f) cs j ≤ _
    omega

/-- **Any calls**: the table holds the counters, and the numbers given back are theirs. -/
theorem run_counts (cs : List IpCall) : ∀ (h : Hash UInt32) (f : Key → Nat), Models h (countMap f) →
    (∀ ip, f ip + IpCall.handles cs < 2 ^ 32) → ∃ ns h', IpCall.runAll h cs = .ok (ns, h') ∧
      ns.map (Option.map UInt32.toNat) = IpCall.answers f cs ∧ Models h' (countMap (IpCall.tally f cs)) := by
  induction cs with
  | nil => exact fun h f hm _ => ⟨[], h, rfl, rfl, hm⟩
  | cons c cs ih =>
    intro h f hm hf
    simp only [handles_cons c cs] at hf
    obtain ⟨n, h₁, hrun, hn, hm₁⟩ := call_counts hm c (by have := hf c.ip; omega)
    obtain ⟨ns, h₂, hall, hns, hm₂⟩ := ih h₁ (c.step f) hm₁ fun j => by
      have hstep := step_le c f j
      have hj := hf j
      omega
    refine ⟨n :: ns, h₂, ?_, ?_, hm₂⟩
    · unfold IpCall.runAll
      rw [hash_bind hrun]
      dsimp only
      rw [hash_bind hall]
      rfl
    · rw [List.map_cons, hn, hns]
      rfl

theorem entry_counts (hm : Models h (countMap f)) (ip : Key) : h.entry ip = .ok (countMap f ip) := entry_spec hm ip

theorem step_other (c : IpCall) (hj : j ≠ c.ip) : c.step f j = f j := by
  cases c with
  | handle ip => exact Function.update_of_ne hj _ _
  | drop ip => exact Function.update_of_ne hj _ _

theorem step_back (f : Key → Nat) (ip : Key) : (IpCall.drop ip).step ((IpCall.handle ip).step f) = f := by
  unfold IpCall.step
  dsimp only
  rw [Function.update_idem, Function.update_self, Nat.add_sub_cancel, Function.update_eq_self]

/-- **The counts of the addresses are exact.**  After any calls with fewer than 2^32 increments, from the table
that `main` allocates: the calls gave back the new values of the counters; an address has an entry, its counter,
exactly where that is positive; one more call moves no other entry; and `handle_ip_count` with `drop_ip_count` of
the same address after it leaves every entry as it was. -/
theorem ip_counts_exact (cs : List IpCall) (hn : IpCall.handles cs < 2 ^ 32) : ∃ h₀ ns h,
    hashAlloc UInt32 256 = .ok h₀ ∧ IpCall.runAll h₀ cs = .ok (ns, h) ∧
      ns.map (Option.map UInt32.toNat) = IpCall.answers (fun _ => 0) cs ∧
      (∀ ip, ∃ o, h.entry ip = .ok o ∧ o.map UInt32.toNat =
        if IpCall.tally (fun _ => 0) cs ip = 0 then none else some (IpCall.tally (fun _ => 0) cs ip)) ∧
      (∀ c, IpCall.handles (cs ++ [c]) < 2 ^ 32 → ∃ n h', c.run h = .ok (n, h') ∧
        ∀ j, j ≠ c.ip → h'.entry j = h.entry j) ∧
      ∀ ip, IpCall.handles cs + 1 < 2 ^ 32 → ∃ n h₁ h₂, (IpCall.handle ip).run h = .ok (n, h₁) ∧
        (IpCall.drop ip).run h₁ = .ok (none, h₂) ∧ ∀ j, h₂.entry j = h.entry j := by
  obtain ⟨h₀, hal, -, hm₀⟩ := alloc_spec (β := UInt32) (b := 256) (by decide) (by decide)
  obtain ⟨ns, h, hall, hns, hm⟩ := run_counts cs h₀ (fun _ => 0) hm₀ fun _ => by
    rw [Nat.zero_add]
    exact hn
  have hle : ∀ ip, IpCall.tally (fun _ => 0) cs ip ≤ IpCall.handles cs := by
    intro ip
    have h := tally_le cs (fun _ => 0) ip
    rwa [Nat.zero_add] at h
  refine ⟨h₀, ns, h, hal, hall, hns, fun ip => ?_, fun c hc => ?_, fun ip hc => ?_⟩
  · exact ⟨_, entry_counts hm ip, countMap_toNat (Nat.lt_of_le_of_lt (hle ip) hn)⟩
  · have hadd : IpCall.handles (cs ++ [c]) = IpCall.handles cs + IpCall.handles [c] := List.countP_append
    rw [hadd] at hc
    obtain ⟨n, h', hrun, -, hm'⟩ := call_counts hm c (by have := hle c.ip; omega)
    refine ⟨n, h', hrun, fun j hj => ?_⟩
    rw [entry_counts hm, entry_counts hm']
    unfold countMap
    rw [step_other c hj]
  · have hlt := hle ip
    obtain ⟨n, h₁, hrun, -, hm₁⟩ := call_counts hm (.handle ip) (by
      show IpCall.tally (fun _ => 0) cs ip + 1 < 2 ^ 32
      omega)
    obtain ⟨o, h₂, hrun', ho, hm₂⟩ := call_counts hm₁ (.drop ip) (by
      show Function.update (IpCall.tally (fun _ => 0) cs) ip (IpCall.tally (fun _ => 0) cs ip + 1) ip + 0 < 2 ^ 32
      rw [Function.update_self]
      omega)
    cases o with
    | some _ => exact nomatch ho
    | none =>
      refine ⟨n, h₁, h₂, hrun, hrun', fun j => ?_⟩
      rw [step_back] at hm₂
      rw [entry_counts hm, entry_counts hm₂]

/-- two addresses of one bucket -/
theorem ip_counts_collide : ∃ h₀ ns h, hashAlloc UInt32 256 = .ok h₀ ∧
    IpCall.runAll h₀ [.handle 1, .handle 257, .handle 1, .drop 257] = .ok (ns, h) ∧
    ns.map (Option.map UInt32.toNat) = [some 1, some 1, some 2, none] := by
  obtain ⟨h₀, ns, h, h1, h2, h3, -⟩ :=
    ip_counts_exact [.handle 1, .handle 257, .handle 1, .drop 257] (by decide)
  exact ⟨h₀, ns, h, h1, h2, h3.trans (by decide)⟩

end

end Myftpd
