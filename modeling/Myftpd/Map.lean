import Myftpd.Hash
import Myftpd.Lib.Runs

/-!
# hash.cpp: the table is a finite map

The callers see a table through the pointers that the lookups give them.  Beside the table, a run keeps the
map that it should hold, and the pointers that lookups gave out and that no `hash_free_entry` has freed since:
only through these may a caller write.

* `Models`                     the chains are well formed and hold the map;
* `lookup_spec`, `add_spec`, `free_spec`, `write_spec`, `alloc_spec`  the routines on maps;
* `call_models`, `run_models`  the table holds the map after every call, and so in every run;
* `hash_is_map_iff`            for which numbers of buckets all this is so.
-/

namespace Myftpd
open Runs

section
variable {β : Type}

/-- the table holds the map `m` -/
structure Models (h : Hash β) (m : Key → Option β) : Prop where
  chains : ∃ ls, Chains h ls
  holds : ∀ k v, m k = some v ↔ ∃ p, h.keyOf p = some k ∧ h.value p = some v

/-- what `hash_add_entry` does to a map -/
def addTo (m : Key → Option β) (k : Key) (v : β) : Key → Option β :=
  if (m k).isSome then m else Function.update m k (some v)

variable {h h' : Hash β} {m : Key → Option β} {k c : Key} {v : β} {p q : Ptr} {b : Nat}

theorem value_of_keyOf (hp : h.keyOf p = some k) : ∃ v, h.value p = some v := by
  obtain ⟨x, hx, -⟩ := keyOf_some.mp hp
  exact ⟨x.value, by unfold Hash.value; rw [hx]; rfl⟩

namespace Models

theorem buckets_pos (hm : Models h m) : 0 < h.buckets := by
  obtain ⟨ls, hk⟩ := hm.chains
  exact hk.pos

theorem key_unique (hm : Models h m) (hp : h.keyOf p = some k) (hq : h.keyOf q = some k) : p = q := by
  obtain ⟨ls, hk⟩ := hm.chains
  exact hk.key_unique hp hq

theorem value_eq (hm : Models h m) (hp : h.keyOf p = some k) : h.value p = m k := by
  obtain ⟨v, hv⟩ := value_of_keyOf hp
  rw [hv, (hm.holds k v).mpr ⟨p, hp, hv⟩]

theorem absent (hm : Models h m) : m k = none ↔ ∀ p, h.keyOf p ≠ some k := by
  refine ⟨fun h0 p hp => ?_, fun hno => ?_⟩
  · obtain ⟨v, hv⟩ := value_of_keyOf hp
    rw [(hm.holds k v).mpr ⟨p, hp, hv⟩] at h0
    exact absurd h0 nofun
  · cases hv : m k with
    | none => rfl
    | some v =>
      obtain ⟨p, hp, -⟩ := (hm.holds k v).mp hv
      exact absurd hp (hno p)

theorem kept (hm : Models h m) (hkey : ∀ p, h'.keyOf p = some c ↔ h.keyOf p = some c)
    (hvalue : ∀ p, h.keyOf p = some c → h'.value p = h.value p) (w : β) :
    m c = some w ↔ ∃ p, h'.keyOf p = some c ∧ h'.value p = some w := by
  rw [hm.holds c w]
  apply exists_congr
  intro p
  rw [hkey p]
  exact and_congr_right fun hp => by rw [hvalue p hp]

end Models

theorem holds_one (hp : h.keyOf p = some k) (hone : ∀ q, h.keyOf q = some k → q = p) (hv : h.value p = some v) (w : β) :
    some v = some w ↔ ∃ q, h.keyOf q = some k ∧ h.value q = some w := by
  constructor
  · intro hw
    exact ⟨p, hp, hv.trans hw⟩
  · rintro ⟨q, hq, hw⟩
    rw [hone q hq, hv] at hw
    exact hw

/-! ## the routines -/

/-- **`hash_lookup_entry`** points to the value of the key in the map, and gives NULL for a key that is not there. -/
theorem lookup_spec (hm : Models h m) (k : Key) : ∃ r, hashLookupEntry h k = .ok r ∧ r.bind h.value = m k ∧
    (r = none ↔ m k = none) ∧ ∀ p, r = some p ↔ h.keyOf p = some k := by
  obtain ⟨ls, hk⟩ := hm.chains
  obtain ⟨r, hr, hfind⟩ := find_spec hk k
  cases r with
  | none =>
    have h0 : m k = none := hm.absent.mpr fun p hp => nomatch (hfind p).mpr hp
    exact ⟨none, hr, h0.symm, iff_of_true rfl h0, hfind⟩
  | some p =>
    have hp := (hfind p).mp rfl
    exact ⟨some p, hr, hm.value_eq hp, iff_of_false nofun fun h0 => hm.absent.mp h0 p hp, hfind⟩

/-- **`hash_add_entry`** adds a key that is not there, and moves no value. -/
theorem add_spec (hm : Models h m) (k : Key) (v : β) : ∃ h', hashAddEntry h k v = .ok h' ∧ Models h' (addTo m k v) ∧
    ∀ p c, h.keyOf p = some c → h'.keyOf p = some c := by
  obtain ⟨ls, hk⟩ := hm.chains
  obtain ⟨r, hr, -, hnone, -⟩ := lookup_spec hm k
  cases hmk : m k with
  | some w =>
    have hsome : r.isSome := Option.isSome_iff_ne_none.mpr fun e => by
      rw [hnone.mp e] at hmk
      exact nomatch hmk
    have hstay : hashAddEntry h k v = .ok h := by
      unfold hashAddEntry
      rw [hash_bind hr, if_pos hsome]
      rfl
    refine ⟨h, hstay, ?_, fun p c hp => hp⟩
    unfold addTo
    rw [hmk]
    exact hm
  | none =>
    have hno := hm.absent.mp hmk
    have hadd : addTo m k v = Function.update m k (some v) := by
      unfold addTo
      rw [hmk]
      rfl
    refine ⟨h.pushed k v, add_eq hk hno v, ⟨⟨_, hk.pushed hno⟩, fun c w => ?_⟩, fun p c hp => ?_⟩
    · rw [hadd]
      by_cases e : c = k
      · subst e
        have hkey : (h.pushed c v).keyOf h.fresh = some c := (pushed_keyOf_iff hk).mpr (Or.inl ⟨rfl, rfl⟩)
        have hvalue : (h.pushed c v).value h.fresh = some v := congrArg (Option.map HashNode.value) (pushed_fresh h c v)
        rw [Function.update_self]
        refine holds_one hkey (fun q hq => ?_) hvalue w
        exact (((pushed_keyOf_iff hk).mp hq).resolve_right (hno q)).1
      · rw [Function.update_of_ne e]
        refine hm.kept (fun p => ?_) (fun p hp => pushed_value (hk.key_ne_fresh hp)) w
        rw [pushed_keyOf_iff hk, or_iff_right fun hh => e hh.2]
    · exact (pushed_keyOf_iff hk).mpr (Or.inr hp)

/-- **`hash_free_entry`** takes the key out of the map, if it is there, and moves no other value. -/
theorem free_spec (hm : Models h m) (k : Key) : ∃ h', hashFreeEntry h k = .ok h' ∧
    Models h' (Function.update m k none) ∧ ∀ p c, c ≠ k → h.keyOf p = some c → h'.keyOf p = some c := by
  obtain ⟨ls, hk⟩ := hm.chains
  by_cases hmk : m k = none
  · obtain ⟨r, hr, -, hnone, -⟩ := lookup_spec hm k
    have hstay : hashFreeEntry h k = .ok h := by
      unfold hashFreeEntry
      have hr' : hashGetNodeByKey h k = .ok r := hr
      rw [hash_bind hr', hnone.mpr hmk]
      rfl
    refine ⟨h, hstay, ?_, fun p c _ hp => hp⟩
    rw [← hmk, Function.update_eq_self]
    exact hm
  · have hthere : ∃ p, h.keyOf p = some k := by
      by_contra hno
      exact hmk (hm.absent.mpr fun p hp => hno ⟨p, hp⟩)
    obtain ⟨p, hp⟩ := hthere
    obtain ⟨x, hx, rfl⟩ := keyOf_some.mp hp
    have hne : ∀ q c, c ≠ x.key → h.keyOf q = some c → q ≠ p := by
      rintro q c hc hq rfl
      exact hc (Option.some.inj (hq.symm.trans hp))
    refine ⟨h.dropped p x, free_eq hk hx, ⟨⟨_, hk.dropped hx⟩, fun c w => ?_⟩, fun q c hc hq => ?_⟩
    · by_cases e : c = x.key
      · subst e
        rw [Function.update_self]
        apply iff_of_false nofun
        rintro ⟨q, hq, -⟩
        obtain ⟨hqne, hq⟩ := dropped_keyOf_iff.mp hq
        exact hqne (hm.key_unique hq hp)
      · rw [Function.update_of_ne e]
        refine hm.kept (fun q => ?_) (fun q hq => dropped_value (hne q c e hq)) w
        exact dropped_keyOf_iff.trans (and_iff_right_of_imp (hne q c e))
    · exact dropped_keyOf_iff.mpr ⟨hne q c hc hq, hq⟩

/-- **A write through a pointer to a value** changes the value of its key. -/
theorem write_spec (hm : Models h m) (hp : h.keyOf p = some c) (v : β) : ∃ h', hashWrite h p v = .ok h' ∧
    Models h' (Function.update m c (some v)) ∧ ∀ q, h'.keyOf q = h.keyOf q := by
  obtain ⟨ls, hk⟩ := hm.chains
  obtain ⟨x, hx, rfl⟩ := keyOf_some.mp hp
  have hnode := written_node hx v
  have hkey : ∀ q, (h.written p x v).keyOf q = h.keyOf q := by
    intro q
    unfold Hash.keyOf
    rw [hnode q, Option.map_map]
    congr 1
    funext y
    dsimp only [Function.comp]
    split <;> rfl
  have hself : (h.written p x v).value p = some v := by
    unfold Hash.value
    rw [hnode p, hx, Option.map_some, if_pos rfl]
    rfl
  have hother : ∀ q, q ≠ p → (h.written p x v).value q = h.value q := by
    intro q hq
    unfold Hash.value
    rw [hnode q]
    simp only [if_neg hq, Option.map_id']
  refine ⟨h.written p x v, write_eq hx v, ⟨⟨ls, hk.written hx v⟩, fun c w => ?_⟩, hkey⟩
  by_cases e : c = x.key
  · subst e
    rw [Function.update_self]
    refine holds_one ((hkey p).trans hp) (fun q hq => ?_) hself w
    exact hm.key_unique ((hkey q).symm.trans hq) hp
  · rw [Function.update_of_ne e]
    refine hm.kept (fun q => by rw [hkey q]) (fun q hq => hother q ?_) w
    rintro rfl
    exact e (Option.some.inj (hq.symm.trans hp))

/-- **A new table** is empty, where its array fits the `int`. -/
theorem alloc_spec (hb : 0 < b) (hs : b < 2 ^ 28) : ∃ h, hashAlloc β b = .ok h ∧ h.buckets = b ∧
    Models h fun _ => none := by
  have hsz : wrapS 32 (b * 8) = b * 8 := by
    unfold wrapS
    omega
  have hlen : (wrapS 32 (b * 8)).toNat / 8 = b := by
    rw [hsz]
    omega
  refine ⟨⟨b, List.replicate b none, fun _ => none, 0⟩, ?_, rfl, ⟨⟨fun _ => [], ?_⟩, fun k v => ?_⟩⟩
  · unfold hashAlloc
    dsimp only
    rw [hlen, if_neg (by rw [hsz]; omega)]
  · refine ⟨hb, List.length_replicate, fun id hid => ?_, nofun, nofun, nofun⟩
    have hhead : Hash.head ⟨b, List.replicate b none, fun _ => (none : Option (HashNode β)), 0⟩ id = none := by
      unfold Hash.head
      rw [List.getElem?_replicate]
      split <;> rfl
    rw [hhead]
    exact DList.chain_nil _ _
  · apply iff_of_false nofun
    rintro ⟨p, hp, -⟩
    exact nomatch hp

end

/-! ## runs -/

/-- a call of hash.cpp, or a write through a pointer to a value -/
inductive HashCall (β : Type) where
  | lookup (k : Key)
  | add (k : Key) (v : β)
  | free (k : Key)
  | write (p : Ptr) (v : β)

/-- a table, the map it should hold, and the keys of the pointers that its callers hold -/
structure HashUse (β : Type) where
  table : Hash β
  map : Key → Option β
  held : Ptr → Option Key

section
variable {β : Type}

/-- the result of a call: the pointer of a lookup, and the table -/
def Hash.call (h : Hash β) : HashCall β → HashRes (Option Ptr × Hash β)
  | .lookup k => do return (← hashLookupEntry h k, h)
  | .add k v => do return (none, ← hashAddEntry h k v)
  | .free k => do return (none, ← hashFreeEntry h k)
  | .write p v => do return (none, ← hashWrite h p v)

namespace HashUse

/-- a caller writes through a pointer that a lookup gave it and that has not been freed -/
def May (u : HashUse β) : HashCall β → Prop
  | .write p _ => u.held p ≠ none
  | _ => True

/-- what the map and the pointers are after a call that gave `r` -/
def after (u : HashUse β) (r : Option Ptr) (h : Hash β) : HashCall β → HashUse β
  | .lookup k => ⟨h, u.map, match r with | none => u.held | some p => Function.update u.held p (some k)⟩
  | .add k v => ⟨h, addTo u.map k v, u.held⟩
  | .free k => ⟨h, Function.update u.map k none, fun p => if u.held p = some k then none else u.held p⟩
  | .write p v => ⟨h, match u.held p with | none => u.map | some k => Function.update u.map k (some v), u.held⟩

/-- the table holds the map, and the pointers that are held are the nodes of their keys -/
structure Ok (u : HashUse β) : Prop where
  models : Models u.table u.map
  held : ∀ p k, u.held p = some k → u.table.keyOf p = some k

end HashUse

/-- the runs of a table with `b` buckets -/
def hashSystem (β : Type) (b : Nat) : System (HashUse β) (HashCall β) where
  init := fun u => hashAlloc β b = .ok u.table ∧ u.map = (fun _ => none) ∧ u.held = fun _ => none
  step := fun c u u' => ∃ r h, u.table.call c = .ok (r, h) ∧ u' = u.after r h c

/-- What a table with `b` buckets should do.  In every run its chains are doubly linked lists of distinct keys
in their buckets, `hash_get_bucket` finds a bucket, a lookup gives a pointer to the value in the map, or NULL
where the map has none, and every call that a caller may make comes back. -/
structure IsMap (β : Type) (b : Nat) : Prop where
  alloc : ∃ h, hashAlloc β b = .ok h
  chains : ∀ u, Reach (hashSystem β b) HashUse.May u → ∃ ls, Chains u.table ls
  bucket : ∀ u, Reach (hashSystem β b) HashUse.May u → ∀ k, ∃ id, hashGetBucket u.table k = .ok id
  lookup : ∀ u, Reach (hashSystem β b) HashUse.May u → ∀ k, ∃ r, hashLookupEntry u.table k = .ok r ∧
    r.bind u.table.value = u.map k ∧ (r = none ↔ u.map k = none)
  call : ∀ u c, Reach (hashSystem β b) HashUse.May u → u.May c → ∃ r h, u.table.call c = .ok (r, h)

variable {u : HashUse β} {b : Nat}

/-- **One call** comes back, and the table still holds the map. -/
theorem call_models (hu : u.Ok) (c : HashCall β) (hc : u.May c) :
    ∃ r h, u.table.call c = .ok (r, h) ∧ (u.after r h c).Ok := by
  cases c with
  | lookup k =>
    obtain ⟨r, hr, -, -, hfind⟩ := lookup_spec hu.models k
    refine ⟨r, u.table, hash_bind hr, hu.models, fun p c hp => ?_⟩
    cases r with
    | none => exact hu.held p c hp
    | some q =>
      change Function.update u.held q (some k) p = some c at hp
      rw [Function.update_apply] at hp
      split at hp
      · rename_i e
        rw [e, ← hp]
        exact (hfind q).mp rfl
      · exact hu.held p c hp
  | add k v =>
    obtain ⟨h, hadd, hm, hkey⟩ := add_spec hu.models k v
    exact ⟨none, h, hash_bind hadd, hm, fun p c hp => hkey p c (hu.held p c hp)⟩
  | free k =>
    obtain ⟨h, hfree, hm, hkey⟩ := free_spec hu.models k
    refine ⟨none, h, hash_bind hfree, hm, fun p c hp => ?_⟩
    change (if u.held p = some k then none else u.held p) = some c at hp
    split at hp
    · exact nomatch hp
    · rename_i hne
      exact hkey p c (fun e => hne (by rw [hp, e])) (hu.held p c hp)
  | write p v =>
    obtain ⟨k, hk⟩ := Option.ne_none_iff_exists'.mp hc
    obtain ⟨h, hwrite, hm, hkey⟩ := write_spec hu.models (hu.held p k hk) v
    refine ⟨none, h, hash_bind hwrite, ?_, fun q c hq => ?_⟩
    · unfold HashUse.after
      simp only [hk]
      exact hm
    · exact (hkey q).trans (hu.held q c hq)

/-- **Every run** of a table whose array fits. -/
theorem run_models (hb : 0 < b) (hs : b < 2 ^ 28) (h : Reach (hashSystem β b) HashUse.May u) : u.Ok := by
  refine Reach.inv (fun u h0 => ?_) (fun u c u' hu hc ht => ?_) h
  · obtain ⟨hal, hmap, hheld⟩ := h0
    obtain ⟨t, ht, -, hm⟩ := alloc_spec (β := β) hb hs
    refine ⟨?_, fun p k hp => ?_⟩
    · rw [hmap, Except.ok.inj (hal.symm.trans ht)]
      exact hm
    · rw [hheld] at hp
      exact nomatch hp
  · obtain ⟨r, t, hcall, rfl⟩ := ht
    obtain ⟨r', t', hcall', hok⟩ := call_models hu c hc
    cases hcall.symm.trans hcall'
    exact hok

end

theorem deref_outside {β : Type} {h : Hash β} {id : Nat} (ho : h.nodes.length ≤ id) : h.deref id = .error .crash := by
  unfold Hash.deref
  rw [List.getElem?_eq_none ho]

/-- The array of a table with so many buckets is too short: the last bucket is outside. -/
theorem last_bucket_crash {β : Type} {b : Nat} {h : Hash β} (hs : 2 ^ 28 ≤ b) (h32 : b < 2 ^ 32)
    (hal : hashAlloc β b = .ok h) : hashLookupEntry h (UInt32.ofNat (b - 1)) = .error .crash := by
  unfold hashAlloc at hal
  dsimp only at hal
  split at hal
  · exact nomatch hal
  · cases hal
    have hlt : wrapS 32 (b * 8) < 2 ^ 31 := by
      unfold wrapS
      omega
    have hkey : (UInt32.ofNat (b - 1)).toNat = b - 1 := UInt32.toNat_ofNat_of_lt' (by
      show b - 1 < 2 ^ 32
      omega)
    have hpos : b - 1 < b := by omega
    have hid : hashFunc b (UInt32.ofNat (b - 1)) = b - 1 := by
      unfold hashFunc
      rw [hkey, Nat.mod_eq_of_lt hpos]
    have hout : (List.replicate ((wrapS 32 (b * 8)).toNat / 8) (none : Option Ptr)).length ≤ b - 1 := by
      rw [List.length_replicate]
      omega
    generalize List.replicate ((wrapS 32 (b * 8)).toNat / 8) (none : Option Ptr) = l at hout
    have hbucket : hashGetBucket (⟨b, l, fun _ => none, 0⟩ : Hash β) (UInt32.ofNat (b - 1)) = .ok (b - 1) := by
      have hok := bucket_ok (h := (⟨b, l, fun _ => none, 0⟩ : Hash β)) (Nat.zero_lt_of_lt hpos) (UInt32.ofNat (b - 1))
      rw [hok]
      exact congrArg Except.ok hid
    have hderef : (⟨b, l, fun _ => none, 0⟩ : Hash β).deref (b - 1) = .error .crash := deref_outside hout
    unfold hashLookupEntry hashGetNodeByKey
    rw [hash_bind hbucket, hderef]
    rfl

/-- **The hash table is a finite map** for every kind of value and every number of buckets whose pointers take
less than 2^31 bytes, and for no other: `hash_alloc` keeps their size in an `int`. -/
theorem hash_is_map_iff (β : Type) (b : Nat) (hb : 0 < b) (h32 : b < 2 ^ 32) : IsMap β b ↔ b < 2 ^ 28 := by
  constructor
  · intro hmap
    by_contra hlarge
    obtain ⟨h, hal⟩ := hmap.alloc
    have hreach : Reach (hashSystem β b) HashUse.May ⟨h, fun _ => none, fun _ => none⟩ :=
      Reach.init ⟨hal, rfl, rfl⟩
    obtain ⟨r, hr, -⟩ := hmap.lookup _ hreach (UInt32.ofNat (b - 1))
    exact nomatch (last_bucket_crash (Nat.le_of_not_lt hlarge) h32 hal).symm.trans hr
  · intro hs
    obtain ⟨h, hal, -, -⟩ := alloc_spec (β := β) hb hs
    refine ⟨⟨h, hal⟩, fun u hu => (run_models hb hs hu).models.chains, fun u hu k => ?_, fun u hu k => ?_,
      fun u c hu hc => ?_⟩
    · exact ⟨_, bucket_ok (run_models hb hs hu).models.buckets_pos k⟩
    · obtain ⟨r, hr, hv, hn, -⟩ := lookup_spec (run_models hb hs hu).models k
      exact ⟨r, hr, hv, hn⟩
    · obtain ⟨r, h, hcall, -⟩ := call_models (run_models hb hs hu) c hc
      exact ⟨r, h, hcall⟩

theorem hash_is_map_256 : IsMap UInt32 256 :=
  (hash_is_map_iff UInt32 256 (by decide) (by decide)).mpr (by decide)

/-- 2^28 pointers take 2^31 bytes, a negative `int` -/
theorem hash_alloc_crash : hashAlloc UInt32 (2 ^ 28) = .error .crash ∧ ¬ IsMap UInt32 (2 ^ 28) := by
  have hcrash : hashAlloc UInt32 (2 ^ 28) = .error .crash := rfl
  refine ⟨hcrash, fun hmap => ?_⟩
  obtain ⟨h, hal⟩ := hmap.alloc
  rw [hcrash] at hal
  exact nomatch hal

end Myftpd
