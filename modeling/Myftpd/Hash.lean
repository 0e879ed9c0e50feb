import Myftpd.Basic
import Myftpd.Lib.Chain
import Mathlib.Data.List.Perm.Subperm

/-!
# hash.cpp: the hash table

The nodes of all chains live in one memory and are named by numbers; `prev` and `next` are the links of a
chain, and `nodes` holds the first node of each.  A key is its four bytes, read as the `unsigned` that
`hash_func` reads, so `memcmp` compares numbers.  The blocks of the key and the value are allocated and freed
with their node, and a pointer to the value is named by the node.

* `hashLookupEntry`, `hashAddEntry`, `hashFreeEntry`  the routines;
* `Chains`          the chains are doubly linked lists, and the keys are where `hash_func` puts them;
* `find_spec`, `add_eq`, `free_eq`, `write_eq`  what the routines do to such a table;
* `Chains.pushed`, `Chains.dropped`, `Chains.written`  and that it stays one.
-/

namespace Myftpd
open DList

abbrev Key := UInt32
abbrev Ptr := Nat

/-- how a routine of hash.cpp can end otherwise -/
inductive HashStop where
  | exit          -- `ERR_EXIT("hash_get_bucket")`
  | crash         -- a NULL, freed or out of bounds pointer is used
  | spin          -- the walk along a chain has not ended yet
  deriving DecidableEq, Repr

abbrev HashRes (α : Type) := Except HashStop α

/-- `hash_node_t` -/
structure HashNode (β : Type) where
  key : Key
  value : β
  prev : Option Ptr
  next : Option Ptr
  deriving DecidableEq, Repr

/-- `hash_t`, the memory of its nodes, and the number that `malloc` gives to the next one -/
structure Hash (β : Type) where
  buckets : Nat
  nodes : List (Option Ptr)
  node : Ptr → Option (HashNode β)
  fresh : Ptr

/-- `hash_func` of ftpepoll.cpp -/
def hashFunc (buckets : Nat) (key : Key) : Nat := key.toNat % buckets

section
variable {β : Type}

/-- `hash_alloc`: the size of the array is kept in an `int`; `malloc` gives NULL for a negative one, and `bzero`
writes there -/
def hashAlloc (β : Type) (buckets : Nat) : HashRes (Hash β) :=
  let sz := wrapS 32 (buckets * 8)
  if sz < 0 then .error .crash
  else .ok ⟨buckets, List.replicate (sz.toNat / 8) none, fun _ => none, 0⟩

namespace Hash

/-- `*bucket` -/
def deref (h : Hash β) (id : Nat) : HashRes (Option Ptr) :=
  match h.nodes[id]? with
  | none => .error .crash
  | some o => .ok o

/-- `*bucket = o` -/
def assign (h : Hash β) (id : Nat) (o : Option Ptr) : HashRes (Hash β) :=
  if id < h.nodes.length then .ok { h with nodes := h.nodes.set id o } else .error .crash

/-- an assignment to a member of `*p` -/
def modify (h : Hash β) (p : Ptr) (f : HashNode β → HashNode β) : HashRes (Hash β) :=
  match h.node p with
  | none => .error .crash
  | some x => .ok { h with node := Function.update h.node p (some (f x)) }

/-- `for (ret = *bucket; ret; ret = ret->next) if (memcmp(ret->key,key,size)==0) return ret`, for so many nodes -/
def walk (h : Hash β) (key : Key) : Nat → Option Ptr → HashRes (Option Ptr)
  | _, none => .ok none
  | 0, some _ => .error .spin
  | n+1, some p =>
    match h.node p with
    | none => .error .crash
    | some x => if x.key = key then .ok (some p) else walk h key n x.next

/-- `*p` for a pointer to a value -/
def value (h : Hash β) (p : Ptr) : Option β := (h.node p).map HashNode.value

/-- the key of a node -/
def keyOf (h : Hash β) (p : Ptr) : Option Key := (h.node p).map HashNode.key

def prev (h : Hash β) (p : Ptr) : Option Ptr := (h.node p).bind HashNode.prev
def next (h : Hash β) (p : Ptr) : Option Ptr := (h.node p).bind HashNode.next

/-- the first node of a chain -/
def head (h : Hash β) (id : Nat) : Option Ptr := (h.nodes[id]?).getD none

end Hash

def hashGetBucket (h : Hash β) (key : Key) : HashRes Nat :=
  let id := hashFunc h.buckets key
  if id ≥ h.buckets then .error .exit else .ok id

/-- the walk needs no more steps than nodes have been allocated -/
def hashGetNodeByKey (h : Hash β) (key : Key) : HashRes (Option Ptr) := do
  let bucket ← hashGetBucket h key
  h.walk key h.fresh (← h.deref bucket)

/-- a pointer to the value, or NULL -/
def hashLookupEntry (h : Hash β) (key : Key) : HashRes (Option Ptr) := hashGetNodeByKey h key

def hashAddEntry (h : Hash β) (key : Key) (value : β) : HashRes (Hash β) := do
  -- "duplicate key."
  if (← hashLookupEntry h key).isSome then return h
  let node := h.fresh
  let h := { h with node := Function.update h.node node (some ⟨key, value, none, none⟩), fresh := node + 1 }
  let bucket ← hashGetBucket h key
  match ← h.deref bucket with
  | none => h.assign bucket (some node)
  | some first => do
    let h ← h.modify node fun x => { x with next := some first }
    let h ← h.modify first fun x => { x with prev := some node }
    h.assign bucket (some node)

def hashFreeEntry (h : Hash β) (key : Key) : HashRes (Hash β) := do
  match ← hashGetNodeByKey h key with
  -- "no such key."
  | none => return h
  | some node =>
    match h.node node with
    | none => .error .crash
    | some x =>
      let h ← match x.prev with
        | some p => h.modify p fun y => { y with next := x.next }
        | none => do h.assign (← hashGetBucket h key) x.next
      let h ← match x.next with
        | some p => h.modify p fun y => { y with prev := x.prev }
        | none => .ok h
      return { h with node := Function.update h.node node none }

/-- `*p = v` for a pointer to a value -/
def hashWrite (h : Hash β) (p : Ptr) (v : β) : HashRes (Hash β) := h.modify p fun x => { x with value := v }

/-! ## the chains -/

/-- The chain of every bucket is a doubly linked list of nodes whose keys belong there; every node is in its
chain, and no key is there twice. -/
structure Chains (h : Hash β) (ls : Nat → List Ptr) : Prop where
  pos : 0 < h.buckets
  size : h.nodes.length = h.buckets
  chain : ∀ id < h.buckets, Chain h.prev h.next (h.head id) (ls id)
  node : ∀ id < h.buckets, ∀ p ∈ ls id, ∃ x, h.node p = some x ∧ hashFunc h.buckets x.key = id
  alive : ∀ p x, h.node p = some x → p < h.fresh ∧ p ∈ ls (hashFunc h.buckets x.key)
  keys : ∀ p q x y, h.node p = some x → h.node q = some y → x.key = y.key → p = q

variable {h h' : Hash β} {ls : Nat → List Ptr} {k : Key} {v : β} {p q : Ptr} {id : Nat}

theorem hash_bind {α γ : Type} {x : HashRes α} {f : α → HashRes γ} {a : α} (h : x = .ok a) : (x >>= f) = f a := by
  rw [h]
  rfl

theorem hashFunc_lt (hb : 0 < h.buckets) (k : Key) : hashFunc h.buckets k < h.buckets := Nat.mod_lt _ hb

/-- **`hash_get_bucket` never takes its error exit.** -/
theorem bucket_ok (hb : 0 < h.buckets) (k : Key) : hashGetBucket h k = .ok (hashFunc h.buckets k) := by
  unfold hashGetBucket
  exact if_neg (Nat.not_le_of_lt (hashFunc_lt hb k))

theorem deref_ok (hid : id < h.nodes.length) : h.deref id = .ok (h.head id) := by
  unfold Hash.deref Hash.head
  rw [List.getElem?_eq_getElem hid]
  rfl

theorem assign_ok (hid : id < h.nodes.length) (o : Option Ptr) :
    h.assign id o = .ok { h with nodes := h.nodes.set id o } := if_pos hid

namespace Chains

theorem bucket_lt (hk : Chains h ls) (k : Key) : hashFunc h.buckets k < h.nodes.length := by
  rw [hk.size]
  exact hashFunc_lt hk.pos k

theorem bucket_unique (hk : Chains h ls) {i j : Nat} (hi : i < h.buckets) (hj : j < h.buckets) (h1 : p ∈ ls i)
    (h2 : p ∈ ls j) : i = j := by
  obtain ⟨x, hx, rfl⟩ := hk.node i hi p h1
  obtain ⟨y, hy, rfl⟩ := hk.node j hj p h2
  rw [Option.some.inj (hx.symm.trans hy)]

theorem length_le (hk : Chains h ls) (hid : id < h.buckets) : (ls id).length ≤ h.fresh := by
  have hsub : ls id ⊆ List.range h.fresh := by
    intro p hp
    obtain ⟨x, hx, -⟩ := hk.node id hid p hp
    exact List.mem_range.mpr (hk.alive p x hx).1
  have hle := (List.Nodup.subperm (Is.nodup (hk.chain id hid)) hsub).length_le
  rwa [List.length_range] at hle

theorem alive_ne (hk : Chains h ls) (hid : id < h.buckets) (hp : p ∈ ls id) : h.node p ≠ none ∧ p ≠ h.fresh := by
  obtain ⟨x, hx, -⟩ := hk.node id hid p hp
  exact ⟨by rw [hx]; exact Option.some_ne_none x, Nat.ne_of_lt (hk.alive p x hx).1⟩

theorem fresh_none (hk : Chains h ls) : h.node h.fresh = none := by
  by_contra hx
  obtain ⟨x, hx⟩ := Option.ne_none_iff_exists'.mp hx
  exact Nat.lt_irrefl _ (hk.alive _ x hx).1

end Chains

/-! ## looking up -/

theorem walk_eq {o : Option Ptr} {l : List Ptr} {n : Nat} (hv : Visits h.next o l) (hl : ∀ p ∈ l, h.node p ≠ none)
    (hn : l.length ≤ n) : h.walk k n o = .ok (l.find? fun p => decide (h.keyOf p = some k)) := by
  induction hv generalizing n with
  | nil => unfold Hash.walk; rfl
  | @cons p l _ ih =>
    obtain ⟨x, hx⟩ := Option.ne_none_iff_exists'.mp (hl p List.mem_cons_self)
    have hkey : h.keyOf p = some x.key := by
      unfold Hash.keyOf
      rw [hx]
      rfl
    have hnext : h.next p = x.next := by
      unfold Hash.next
      rw [hx]
      rfl
    cases n with
    | zero => exact absurd hn (Nat.not_succ_le_zero _)
    | succ n =>
      unfold Hash.walk
      simp only [hx]
      by_cases e : x.key = k
      · rw [if_pos e, List.find?_cons_of_pos (by rw [hkey, e]; exact decide_eq_true rfl)]
      · rw [if_neg e, List.find?_cons_of_neg (by
          rw [hkey]
          exact fun hd => e (Option.some.inj (of_decide_eq_true hd))), ← hnext]
        exact ih (fun q hq => hl q (List.mem_cons_of_mem _ hq)) (Nat.le_of_succ_le_succ hn)

theorem keyOf_some : h.keyOf p = some k ↔ ∃ x, h.node p = some x ∧ x.key = k := Option.map_eq_some_iff

theorem Chains.key_unique (hk : Chains h ls) (hp : h.keyOf p = some k) (hq : h.keyOf q = some k) : p = q := by
  obtain ⟨x, hx, e⟩ := keyOf_some.mp hp
  obtain ⟨y, hy, e'⟩ := keyOf_some.mp hq
  exact hk.keys p q x y hx hy (e.trans e'.symm)

theorem Chains.key_ne_fresh (hk : Chains h ls) (hp : h.keyOf p = some k) : p ≠ h.fresh := by
  obtain ⟨x, hx, -⟩ := keyOf_some.mp hp
  exact Nat.ne_of_lt (hk.alive p x hx).1

/-- **`hash_get_node_by_key`** finds the node with the key. -/
theorem find_spec (hk : Chains h ls) (k : Key) :
    ∃ r, hashGetNodeByKey h k = .ok r ∧ ∀ p, r = some p ↔ h.keyOf p = some k := by
  have hid := hashFunc_lt hk.pos k
  have hc := hk.chain _ hid
  refine ⟨(ls (hashFunc h.buckets k)).find? fun p => decide (h.keyOf p = some k), ?_, fun p => ⟨fun hp => ?_, fun hp => ?_⟩⟩
  · unfold hashGetNodeByKey
    rw [hash_bind (bucket_ok hk.pos k), hash_bind (deref_ok (hk.bucket_lt k))]
    exact walk_eq hc.visits (fun p hp => (hk.alive_ne hid hp).1) (hk.length_le hid)
  · have hd := List.find?_some hp
    exact of_decide_eq_true hd
  · obtain ⟨x, hx, rfl⟩ := keyOf_some.mp hp
    have hmem := (hk.alive p x hx).2
    cases hf : (ls (hashFunc h.buckets x.key)).find? fun q => decide (h.keyOf q = some x.key) with
    | none => exact absurd (decide_eq_true hp) (List.find?_eq_none.mp hf p hmem)
    | some q =>
      have hd := List.find?_some hf
      rw [hk.key_unique (of_decide_eq_true hd) hp]

/-! ## adding -/

/-- the table with a new node at the head of its chain -/
def Hash.pushed (h : Hash β) (k : Key) (v : β) : Hash β where
  buckets := h.buckets
  nodes := h.nodes.set (hashFunc h.buckets k) (some h.fresh)
  node := fun p => if p = h.fresh then some ⟨k, v, none, h.head (hashFunc h.buckets k)⟩
    else (h.node p).map fun x => if h.head (hashFunc h.buckets k) = some p then { x with prev := some h.fresh } else x
  fresh := h.fresh + 1

theorem pushed_node (hp : p ≠ h.fresh) : (h.pushed k v).node p = (h.node p).map fun x =>
    if h.head (hashFunc h.buckets k) = some p then { x with prev := some h.fresh } else x := if_neg hp

theorem pushed_keyOf (hp : p ≠ h.fresh) : (h.pushed k v).keyOf p = h.keyOf p := by
  unfold Hash.keyOf
  rw [pushed_node hp, Option.map_map]
  congr 1
  funext x
  dsimp only [Function.comp]
  split <;> rfl

theorem pushed_fresh (h : Hash β) (k : Key) (v : β) :
    (h.pushed k v).node h.fresh = some ⟨k, v, none, h.head (hashFunc h.buckets k)⟩ := if_pos rfl

/-- a node of the new table is the new one, or was there with the same key -/
theorem pushed_keyOf_iff (hk : Chains h ls) {c : Key} :
    (h.pushed k v).keyOf p = some c ↔ p = h.fresh ∧ c = k ∨ h.keyOf p = some c := by
  by_cases e : p = h.fresh
  · have hnew : (h.pushed k v).keyOf h.fresh = some k := keyOf_some.mpr ⟨_, pushed_fresh h k v, rfl⟩
    have hold : h.keyOf h.fresh = none := congrArg (Option.map HashNode.key) hk.fresh_none
    rw [e, hnew, hold, Option.some.injEq, eq_comm, eq_self, true_and, or_iff_left nofun]
  · rw [pushed_keyOf e, or_iff_right fun hh => e hh.1]

theorem pushed_value (hp : p ≠ h.fresh) : (h.pushed k v).value p = h.value p := by
  unfold Hash.value
  rw [pushed_node hp, Option.map_map]
  congr 1
  funext x
  dsimp only [Function.comp]
  split <;> rfl

theorem pushed_next (hp : p ≠ h.fresh) : (h.pushed k v).next p = h.next p := by
  unfold Hash.next
  rw [pushed_node hp]
  cases h.node p with
  | none => rfl
  | some x =>
    dsimp only [Option.map_some, Option.bind_some]
    split <;> rfl

theorem pushed_prev (hp : p ≠ h.fresh) (ha : h.node p ≠ none) : (h.pushed k v).prev p =
    if h.head (hashFunc h.buckets k) = some p then some h.fresh else h.prev p := by
  obtain ⟨x, hx⟩ := Option.ne_none_iff_exists'.mp ha
  unfold Hash.prev
  rw [pushed_node hp, hx]
  dsimp only [Option.map_some, Option.bind_some]
  split <;> rfl

theorem set_head {o : Option Ptr} {i : Nat} (hi : i < h.nodes.length) :
    ((h.nodes.set i o)[id]?).getD none = if id = i then o else h.head id := by
  rw [List.getElem?_set]
  by_cases e : i = id
  · rw [if_pos e, if_pos hi, if_pos e.symm]
    rfl
  · rw [if_neg e, if_neg (Ne.symm e)]
    rfl

/-- **A key that is not there** is added at the head of its chain. -/
theorem add_eq (hk : Chains h ls) (hno : ∀ p, h.keyOf p ≠ some k) (v : β) :
    hashAddEntry h k v = .ok (h.pushed k v) := by
  obtain ⟨r, hr, hfind⟩ := find_spec hk k
  have hnone : r = none := by
    cases r with
    | none => rfl
    | some p => exact absurd ((hfind p).mp rfl) (hno p)
  have hid := hashFunc_lt hk.pos k
  have hlt := hk.bucket_lt k
  have hassign : ∀ f : Ptr → Option (HashNode β),
      Hash.assign ⟨h.buckets, h.nodes, f, h.fresh + 1⟩ (hashFunc h.buckets k) (some h.fresh) =
        .ok ⟨h.buckets, h.nodes.set (hashFunc h.buckets k) (some h.fresh), f, h.fresh + 1⟩ := fun f => if_pos hlt
  unfold hashAddEntry hashLookupEntry
  rw [hash_bind hr, hnone, if_neg nofun]
  refine (hash_bind (bucket_ok hk.pos k)).trans ?_
  refine (hash_bind (a := h.head (hashFunc h.buckets k)) (deref_ok hlt)).trans ?_
  cases hhead : h.head (hashFunc h.buckets k) with
  | none =>
    refine (hassign _).trans ?_
    unfold Hash.pushed
    rw [hhead]
    congr 2
    funext p
    rw [Function.update_apply]
    split
    · rfl
    · cases h.node p with
      | none => rfl
      | some x => rw [Option.map_some, if_neg nofun]
  | some q =>
    have hq : q ∈ ls (hashFunc h.buckets k) := (hk.chain _ hid).head_mem hhead
    obtain ⟨ha, hne⟩ := hk.alive_ne hid hq
    obtain ⟨y, hy⟩ := Option.ne_none_iff_exists'.mp ha
    have hnode : Hash.modify ⟨h.buckets, h.nodes, Function.update h.node h.fresh (some ⟨k, v, none, none⟩), h.fresh + 1⟩
        h.fresh (fun x => { x with next := some q }) =
        .ok ⟨h.buckets, h.nodes, Function.update h.node h.fresh (some ⟨k, v, none, some q⟩), h.fresh + 1⟩ := by
      unfold Hash.modify
      simp only [Function.update_self, Function.update_idem]
    have hfirst : Hash.modify ⟨h.buckets, h.nodes, Function.update h.node h.fresh (some ⟨k, v, none, some q⟩),
        h.fresh + 1⟩ q (fun x => { x with prev := some h.fresh }) = .ok ⟨h.buckets, h.nodes,
        Function.update (Function.update h.node h.fresh (some ⟨k, v, none, some q⟩)) q
          (some { y with prev := some h.fresh }), h.fresh + 1⟩ := by
      unfold Hash.modify
      simp only [Function.update_of_ne hne, hy]
    refine (hash_bind hnode).trans ((hash_bind hfirst).trans ((hassign _).trans ?_))
    unfold Hash.pushed
    rw [hhead]
    congr 2
    funext p
    by_cases e : p = q
    · rw [e, Function.update_self, if_neg hne, hy, Option.map_some, if_pos rfl]
    · rw [Function.update_of_ne e, Function.update_apply]
      split
      · rfl
      · cases h.node p with
        | none => rfl
        | some x => rw [Option.map_some, if_neg fun e' => e (Option.some.inj e').symm]

theorem Chains.pushed (hk : Chains h ls) (hno : ∀ p, h.keyOf p ≠ some k) :
    Chains (h.pushed k v) (Function.update ls (hashFunc h.buckets k) (h.fresh :: ls (hashFunc h.buckets k))) := by
  have hidk := hashFunc_lt hk.pos k
  have hfresh : h.fresh ∉ ls (hashFunc h.buckets k) := fun hp => (hk.alive_ne hidk hp).2 rfl
  refine ⟨hk.pos, ?_, fun id hid => ?_, fun id hid p hp => ?_, fun p x hx => ?_, fun p q x y hx hy e => ?_⟩
  · exact (List.length_set ..).trans hk.size
  · have hhead : (h.pushed k v).head id = if id = hashFunc h.buckets k then some h.fresh else h.head id :=
      set_head (hk.bucket_lt k)
    rw [hhead]
    by_cases e : id = hashFunc h.buckets k
    · subst e
      rw [if_pos rfl, Function.update_self]
      refine (hk.chain _ hid).link hfresh ?_ ?_ (fun p hp => ?_) fun p hp => ?_
      · exact congrArg (Option.bind · HashNode.next) (pushed_fresh h k v)
      · exact congrArg (Option.bind · HashNode.prev) (pushed_fresh h k v)
      · exact pushed_next (hk.alive_ne hid hp).2
      · exact pushed_prev (hk.alive_ne hid hp).2 (hk.alive_ne hid hp).1
    · rw [if_neg e, Function.update_of_ne e]
      refine (hk.chain id hid).congr (fun p hp => pushed_next (hk.alive_ne hid hp).2) fun p hp => ?_
      rw [pushed_prev (hk.alive_ne hid hp).2 (hk.alive_ne hid hp).1, if_neg]
      exact fun hh => e (hk.bucket_unique hid hidk hp ((hk.chain _ hidk).head_mem hh))
  · rw [Function.update_apply] at hp
    have hthere : p ∈ ls id → ∃ x, (h.pushed k v).node p = some x ∧ hashFunc h.buckets x.key = id := by
      intro hp
      obtain ⟨x, hx, e⟩ := hk.node id hid p hp
      have hkey : (h.pushed k v).keyOf p = some x.key :=
        (pushed_keyOf_iff hk).mpr (Or.inr (keyOf_some.mpr ⟨x, hx, rfl⟩))
      obtain ⟨y, hy, e'⟩ := keyOf_some.mp hkey
      exact ⟨y, hy, by rw [e', e]⟩
    split at hp
    · rename_i e
      rcases List.mem_cons.mp hp with rfl | hp
      · exact ⟨_, pushed_fresh h k v, e.symm⟩
      · exact hthere (e ▸ hp)
    · exact hthere hp
  · show p < h.fresh + 1 ∧ p ∈ Function.update ls _ _ (hashFunc h.buckets x.key)
    rcases (pushed_keyOf_iff hk).mp (keyOf_some.mpr ⟨x, hx, rfl⟩) with ⟨rfl, e⟩ | hold
    · rw [e, Function.update_self]
      exact ⟨Nat.lt_succ_self _, List.mem_cons_self⟩
    · obtain ⟨y, hy, e⟩ := keyOf_some.mp hold
      obtain ⟨h1, h2⟩ := hk.alive p y hy
      rw [← e, Function.update_apply]
      refine ⟨Nat.lt_succ_of_lt h1, ?_⟩
      split
      · rename_i e'
        rw [e'] at h2
        exact List.mem_cons_of_mem _ h2
      · exact h2
  · have hp := (pushed_keyOf_iff hk).mp (keyOf_some.mpr ⟨x, hx, rfl⟩)
    have hq := (pushed_keyOf_iff hk).mp (keyOf_some.mpr ⟨y, hy, rfl⟩)
    rw [← e] at hq
    rcases hp with ⟨h1, h2⟩ | hp
    · rcases hq with ⟨h3, -⟩ | hq
      · rw [h1, h3]
      · exact absurd (h2 ▸ hq) (hno q)
    · rcases hq with ⟨-, h4⟩ | hq
      · exact absurd (h4 ▸ hp) (hno p)
      · exact hk.key_unique hp hq

/-! ## freeing and writing -/

/-- an assignment to a member of `*o` where `o` is not NULL, and what follows it -/
theorem modify_then {γ : Type} (o : Option Ptr) (f : HashNode β → HashNode β) (g : Hash β → HashRes γ) :
    (∀ p, o = some p → h.node p ≠ none) →
      (match o with | some p => h.modify p f >>= g | none => Except.ok h >>= g) =
        g { h with node := fun q => if o = some q then (h.node q).map f else h.node q } := by
  intro ha
  cases o with
  | none => rfl
  | some p =>
    obtain ⟨x, hx⟩ := Option.ne_none_iff_exists'.mp (ha p rfl)
    have hmod : h.modify p f = .ok { h with node := Function.update h.node p (some (f x)) } := by
      unfold Hash.modify
      rw [hx]
    dsimp only
    rw [hash_bind hmod]
    congr 2
    funext q
    rw [Function.update_apply]
    by_cases e : q = p
    · rw [if_pos e, e, if_pos rfl, hx]
      rfl
    · rw [if_neg e, if_neg fun e' => e (Option.some.inj e').symm]

/-- the table without the node `p`, which holds `x` -/
def Hash.dropped (h : Hash β) (p : Ptr) (x : HashNode β) : Hash β where
  buckets := h.buckets
  nodes := if x.prev = none then h.nodes.set (hashFunc h.buckets x.key) x.next else h.nodes
  node := fun q => if q = p then none else (h.node q).map fun y =>
    { y with
      next := if x.prev = some q then x.next else y.next
      prev := if x.next = some q then x.prev else y.prev }
  fresh := h.fresh

variable {x : HashNode β}

theorem dropped_node (hq : q ≠ p) : (h.dropped p x).node q = (h.node q).map fun y =>
    { y with
      next := if x.prev = some q then x.next else y.next
      prev := if x.next = some q then x.prev else y.prev } := if_neg hq

theorem dropped_value (hq : q ≠ p) : (h.dropped p x).value q = h.value q := by
  unfold Hash.value
  rw [dropped_node hq, Option.map_map]
  rfl

theorem dropped_keyOf (hq : q ≠ p) : (h.dropped p x).keyOf q = h.keyOf q := by
  unfold Hash.keyOf
  rw [dropped_node hq, Option.map_map]
  rfl

theorem dropped_keyOf_iff : (h.dropped p x).keyOf q = some k ↔ q ≠ p ∧ h.keyOf q = some k := by
  by_cases e : q = p
  · have hgone : (h.dropped p x).node q = none := if_pos e
    have hkey : (h.dropped p x).keyOf q = none := congrArg (Option.map HashNode.key) hgone
    rw [hkey]
    exact iff_of_false nofun fun hh => hh.1 e
  · rw [dropped_keyOf e, and_iff_right e]

theorem dropped_next (hq : q ≠ p) (ha : h.node q ≠ none) :
    (h.dropped p x).next q = if x.prev = some q then x.next else h.next q := by
  obtain ⟨y, hy⟩ := Option.ne_none_iff_exists'.mp ha
  unfold Hash.next
  rw [dropped_node hq, hy]
  rfl

theorem dropped_prev (hq : q ≠ p) (ha : h.node q ≠ none) :
    (h.dropped p x).prev q = if x.next = some q then x.prev else h.prev q := by
  obtain ⟨y, hy⟩ := Option.ne_none_iff_exists'.mp ha
  unfold Hash.prev
  rw [dropped_node hq, hy]
  rfl

theorem prev_of_node (hp : h.node p = some x) : h.prev p = x.prev := by
  unfold Hash.prev
  rw [hp]
  rfl

theorem next_of_node (hp : h.node p = some x) : h.next p = x.next := by
  unfold Hash.next
  rw [hp]
  rfl

/-- **A key that is there** is unlinked from its chain, and its node goes. -/
theorem free_eq (hk : Chains h ls) (hp : h.node p = some x) : hashFreeEntry h x.key = .ok (h.dropped p x) := by
  obtain ⟨r, hr, hfind⟩ := find_spec hk x.key
  have hsome : r = some p := (hfind p).mpr (keyOf_some.mpr ⟨x, hp, rfl⟩)
  have hid := hashFunc_lt hk.pos x.key
  have hc := hk.chain _ hid
  have hmem := (hk.alive p x hp).2
  have hleft : ∀ q, x.prev = some q → h.node q ≠ none := fun q hq =>
    (hk.alive_ne hid (hc.prev_mem hmem (by rw [prev_of_node hp, hq]))).1
  have hright : ∀ q, x.next = some q → h.node q ≠ none := fun q hq =>
    (hk.alive_ne hid (hc.next_mem hmem (by rw [next_of_node hp, hq]))).1
  unfold hashFreeEntry Hash.dropped
  rw [hash_bind hr, hsome]
  simp only [hp]
  cases hpre : x.prev with
  | none =>
    dsimp only
    rw [hash_bind (bucket_ok hk.pos x.key), hash_bind (assign_ok (hk.bucket_lt x.key) x.next)]
    have hthere : ∀ q, x.next = some q →
        ({ h with nodes := h.nodes.set (hashFunc h.buckets x.key) x.next } : Hash β).node q ≠ none := hright
    refine (modify_then x.next _ _ hthere).trans ?_
    rw [if_pos rfl]
    show Except.ok _ = Except.ok _
    congr 2
    funext q
    rw [Function.update_apply]
    dsimp only
    by_cases e : x.next = some q <;> cases h.node q <;> simp [e]
  | some b =>
    have hthere : ∀ q, x.next = some q → (⟨h.buckets, h.nodes, fun q =>
        if some b = some q then (h.node q).map fun y => { y with next := x.next } else h.node q, h.fresh⟩ : Hash β).node q
          ≠ none := by
      intro q hq
      obtain ⟨y, hy⟩ := Option.ne_none_iff_exists'.mp (hright q hq)
      dsimp only
      rw [hy]
      split <;> exact Option.some_ne_none _
    refine (modify_then (some b) _ _ fun q hq => hleft q (hpre.trans hq)).trans ?_
    refine (modify_then x.next _ _ hthere).trans ?_
    rw [if_neg nofun]
    show Except.ok _ = Except.ok _
    congr 2
    funext q
    rw [Function.update_apply]
    dsimp only
    by_cases e : x.next = some q <;> by_cases e' : b = q <;> cases h.node q <;> simp [e, e']

/-- the node that goes was in one chain only -/
theorem Chains.elsewhere (hk : Chains h ls) (hp : h.node p = some x) (hid : id < h.buckets)
    (e : id ≠ hashFunc h.buckets x.key) (hq : q ∈ ls id) : q ≠ p ∧ x.prev ≠ some q ∧ x.next ≠ some q := by
  have hidk := hashFunc_lt hk.pos x.key
  have hmem := (hk.alive p x hp).2
  refine ⟨?_, fun hn => ?_, fun hn => ?_⟩
  · rintro rfl
    exact e (hk.bucket_unique hid hidk hq hmem)
  · exact e (hk.bucket_unique hid hidk hq ((hk.chain _ hidk).prev_mem hmem ((prev_of_node hp).trans hn)))
  · exact e (hk.bucket_unique hid hidk hq ((hk.chain _ hidk).next_mem hmem ((next_of_node hp).trans hn)))

theorem Chains.dropped (hk : Chains h ls) (hp : h.node p = some x) : Chains (h.dropped p x)
    (Function.update ls (hashFunc h.buckets x.key) ((ls (hashFunc h.buckets x.key)).erase p)) := by
  have hidk := hashFunc_lt hk.pos x.key
  have hmem := (hk.alive p x hp).2
  have hnodup := Is.nodup (hk.chain _ hidk)
  refine ⟨hk.pos, ?_, fun id hid => ?_, fun id hid q hq => ?_, fun q y hy => ?_, fun q r y z hy hz e => ?_⟩
  · unfold Hash.dropped
    dsimp only
    split
    · rw [List.length_set, hk.size]
    · exact hk.size
  · have hhead : (h.dropped p x).head id =
        if id = hashFunc h.buckets x.key ∧ x.prev = none then x.next else h.head id := by
      unfold Hash.dropped Hash.head
      dsimp only
      by_cases e : x.prev = none
      · rw [if_pos e, set_head (hk.bucket_lt x.key)]
        simp only [e, and_true]
        rfl
      · rw [if_neg e, if_neg fun h => e h.2]
    rw [hhead]
    by_cases e : id = hashFunc h.buckets x.key
    · subst e
      rw [Function.update_self]
      simp only [true_and]
      rw [← prev_of_node hp, ← next_of_node hp]
      refine (hk.chain _ hid).unlink hmem (fun q hq hne => ?_) fun q hq hne => ?_
      · rw [dropped_next hne (hk.alive_ne hid hq).1, prev_of_node hp, next_of_node hp]
      · rw [dropped_prev hne (hk.alive_ne hid hq).1, prev_of_node hp, next_of_node hp]
    · rw [Function.update_of_ne e, if_neg fun h => e h.1]
      refine (hk.chain id hid).congr (fun q hq => ?_) fun q hq => ?_
      · obtain ⟨hne, hpre, -⟩ := hk.elsewhere hp hid e hq
        rw [dropped_next hne (hk.alive_ne hid hq).1, if_neg hpre]
      · obtain ⟨hne, -, hnx⟩ := hk.elsewhere hp hid e hq
        rw [dropped_prev hne (hk.alive_ne hid hq).1, if_neg hnx]
  · have hin : q ≠ p ∧ q ∈ ls id := by
      by_cases e : id = hashFunc h.buckets x.key
      · subst e
        rw [Function.update_self] at hq
        exact hnodup.mem_erase_iff.mp hq
      · rw [Function.update_of_ne e] at hq
        exact ⟨(hk.elsewhere hp hid e hq).1, hq⟩
    obtain ⟨y, hy, e⟩ := hk.node id hid q hin.2
    have hkey : (h.dropped p x).keyOf q = some y.key := dropped_keyOf_iff.mpr ⟨hin.1, keyOf_some.mpr ⟨y, hy, rfl⟩⟩
    obtain ⟨z, hz, e'⟩ := keyOf_some.mp hkey
    exact ⟨z, hz, by rw [e']; exact e⟩
  · obtain ⟨hne, hold⟩ := dropped_keyOf_iff.mp (keyOf_some.mpr ⟨y, hy, rfl⟩)
    obtain ⟨z, hz, e⟩ := keyOf_some.mp hold
    obtain ⟨h1, h2⟩ := hk.alive q z hz
    refine ⟨h1, ?_⟩
    show q ∈ Function.update ls _ _ (hashFunc h.buckets y.key)
    rw [← e, Function.update_apply]
    split
    · rename_i e'
      rw [e'] at h2
      exact hnodup.mem_erase_iff.mpr ⟨hne, h2⟩
    · exact h2
  · obtain ⟨-, hq⟩ := dropped_keyOf_iff.mp (keyOf_some.mpr ⟨y, hy, rfl⟩)
    obtain ⟨-, hr⟩ := dropped_keyOf_iff.mp (keyOf_some.mpr ⟨z, hz, rfl⟩)
    exact hk.key_unique hq (e ▸ hr)

/-- the table after a write to the value of `p` -/
def Hash.written (h : Hash β) (p : Ptr) (x : HashNode β) (v : β) : Hash β :=
  { h with node := Function.update h.node p (some { x with value := v }) }

theorem write_eq (hp : h.node p = some x) (v : β) : hashWrite h p v = .ok (h.written p x v) := by
  unfold hashWrite Hash.modify
  rw [hp]
  rfl

theorem written_node (hp : h.node p = some x) (v : β) : ∀ q, (h.written p x v).node q =
    (h.node q).map fun y => if q = p then { y with value := v } else y := by
  intro q
  unfold Hash.written
  dsimp only
  rw [Function.update_apply]
  split
  · rename_i e
    rw [e, hp]
    rfl
  · cases h.node q <;> rfl

theorem Chains.written (hk : Chains h ls) (hp : h.node p = some x) (v : β) : Chains (h.written p x v) ls := by
  have hnode := written_node hp v
  have hnext : (h.written p x v).next = h.next := by
    funext q
    unfold Hash.next
    rw [hnode q]
    cases h.node q with
    | none => rfl
    | some y =>
      dsimp only [Option.map_some, Option.bind_some]
      split <;> rfl
  have hprev : (h.written p x v).prev = h.prev := by
    funext q
    unfold Hash.prev
    rw [hnode q]
    cases h.node q with
    | none => rfl
    | some y =>
      dsimp only [Option.map_some, Option.bind_some]
      split <;> rfl
  have hold : ∀ q y, (h.written p x v).node q = some y → ∃ z, h.node q = some z ∧ z.key = y.key := by
    intro q y hy
    rw [hnode q] at hy
    obtain ⟨z, hz, rfl⟩ := Option.map_eq_some_iff.mp hy
    refine ⟨z, hz, ?_⟩
    split <;> rfl
  refine ⟨hk.pos, hk.size, fun id hid => ?_, fun id hid q hq => ?_, fun q y hy => ?_, fun q r y z hy hz e => ?_⟩
  · rw [hnext, hprev]
    exact hk.chain id hid
  · obtain ⟨y, hy, e⟩ := hk.node id hid q hq
    refine ⟨_, by rw [hnode q, hy]; rfl, ?_⟩
    dsimp only
    split <;> exact e
  · obtain ⟨z, hz, e⟩ := hold q y hy
    have ha := hk.alive q z hz
    rw [e] at ha
    exact ha
  · obtain ⟨y', hy', h1⟩ := hold q y hy
    obtain ⟨z', hz', h2⟩ := hold r z hz
    exact hk.keys q r y' z' hy' hz' (by rw [h1, h2, e])

end

end Myftpd
