import Myftpd.Live
import Myftpd.Noted

/-!
# The counts of connections and the two limits

`s_children` and `s_ip_count_hash` go up when a connection is admitted, and nothing that ends a session
lowers them: only `handle_sigchld` would, for child processes that the server does not have.  The total
limit is compared with the count before it goes up, and the limit for one address with a field that is
still 0.  `peers` records from which address every session came.

* `accounts_kept`   the counts are right as long as no session ends;
* `limit_kept`      the total limit, as long as nobody knocks when it is reached for the first time;
* `ip_limit_kept`   the limit for one address, as long as nobody knocks when it is reached.
-/

namespace Myftpd
open CMem Server

/-- the addresses of the sessions after a step -/
def peers (c : Conf) (g : Sid → Option Nat) (s : Server) (l : Label) (_ : Server) :
    Sid → Option Nat :=
  match admits c s l with
  | some ip => Function.update g s.nextSid (some ip)
  | none => g

/-- the server, with the addresses of its sessions -/
def peered (c : Conf) : Runs.System (Server × (Sid → Option Nat)) Label :=
  (sys c).recording (fun _ => none) (peers c)

abbrev PeerReach (c : Conf) (C : Server × (Sid → Option Nat) → Label → Prop)
    (p : Server × (Sid → Option Nat)) : Prop := Runs.Reach (peered c) C p

def liveFrom (s : Server) (g : Sid → Option Nat) (ip : Nat) : Finset Sid :=
  (live s).filter fun sid => g sid = some ip

section
variable {c : Conf} {s s' : Server} {l : Label} {sid : Sid} {ip : Nat} {g : Sid → Option Nat}

theorem peers_some (h : admits c s l = some ip) :
    peers c g s l s' = Function.update g s.nextSid (some ip) := by
  unfold peers
  rw [h]

theorem peers_none (h : admits c s l = none) : peers c g s l s' = g := by
  unfold peers
  rw [h]

/-! ## the counts after a step -/

theorem counts_admitted (h : Booked c s l s'.books) (ha : admits c s l = some ip) :
    s'.sChildren = (s.sChildren + 1) % sChildrenMax ∧
      s'.sIpCount = Function.update s.sIpCount ip (some (handleIpCount s ip)) := by
  show s'.books.children = _ ∧ s'.books.ipCount = _
  generalize s'.books = b at h
  cases h with
  | same h => cases h.symm.trans ha
  | refresh now env fd => cases ha
  | admitted conn hv =>
    cases (admits_some hv).symm.trans ha
    exact ⟨rfl, rfl⟩
  | refused conn text hv => cases (admits_none hv).symm.trans ha
  | evicted now n node x _ _ _ _ => cases ha

theorem counts_same (h : Booked c s l s'.books) (ha : admits c s l = none) :
    s'.sChildren = s.sChildren ∧ s'.sIpCount = s.sIpCount := by
  show s'.books.children = _ ∧ s'.books.ipCount = _
  generalize s'.books = b at h
  cases h with
  | admitted conn hv => cases (admits_some hv).symm.trans ha
  | _ => exact ⟨rfl, rfl⟩

/-! ## the sets after a step -/

section
variable (hn : s.ledger.Numbered) (hen : enabled s l) (he : exec c s l = .ok s')
include hn hen he

theorem card_admitted (ha : admits c s l = some ip) : (live s').card = (live s).card + 1 := by
  rw [live_admitted hn hen he (by rw [ha]; exact Option.some_ne_none ip),
    Finset.card_insert_of_notMem next_not_live]

theorem card_ended (h : ends c s l = some sid) : (live s').card + 1 = (live s).card := by
  obtain ⟨hm, e⟩ := live_ended hn hen he h
  rw [e, Finset.card_erase_add_one hm]

theorem from_admitted (ha : admits c s l = some ip) (j : Nat) :
    liveFrom s' (peers c g s l s') j =
      if j = ip then insert s.nextSid (liveFrom s g j) else liveFrom s g j := by
  unfold liveFrom
  rw [peers_some ha, live_admitted hn hen he (by rw [ha]; exact Option.some_ne_none ip),
    Finset.filter_insert, Function.update_self]
  have hold : (live s).filter (fun sid => Function.update g s.nextSid (some ip) sid = some j) =
      (live s).filter (fun sid => g sid = some j) := by
    apply Finset.filter_congr
    intro sid hs
    rw [Function.update_of_ne]
    rintro rfl
    exact next_not_live hs
  rw [hold]
  by_cases h : j = ip
  · rw [if_pos h, if_pos (by rw [h])]
  · rw [if_neg h, if_neg fun e => h (Option.some.inj e).symm]

theorem from_ended (h : ends c s l = some sid) (ha : admits c s l = none) (j : Nat) :
    liveFrom s' (peers c g s l s') j = (liveFrom s g j).erase sid := by
  unfold liveFrom
  rw [peers_none ha, (live_ended hn hen he h).2, Finset.filter_erase]

theorem from_same (h : ends c s l = none) (ha : admits c s l = none) (j : Nat) :
    liveFrom s' (peers c g s l s') j = liveFrom s g j := by
  unfold liveFrom
  rw [peers_none ha, live_same hn hen he ha h]

end

/-! ## the counts and the live sessions -/

/-- `s_children` is the number of live sessions, and `s_ip_count_hash` has for every address the number
of its live sessions, and no entry when there is none. -/
structure Accounted (s : Server) (g : Sid → Option Nat) : Prop where
  children : s.sChildren = (live s).card
  ips : ∀ ip, s.sIpCount ip =
    if (liveFrom s g ip).card = 0 then none else some (liveFrom s g ip).card

/-- no session ends, and the count does not overflow -/
def Unclosed (c : Conf) (p : Server × (Sid → Option Nat)) (l : Label) : Prop :=
  ends c p.1 l = none ∧ (admits c p.1 l ≠ none → p.1.sChildren + 1 < sChildrenMax)

instance (c : Conf) (p : Server × (Sid → Option Nat)) (l : Label) : Decidable (Unclosed c p l) :=
  inferInstanceAs (Decidable (_ ∧ (_ → _)))

theorem card_from_le (s : Server) (g : Sid → Option Nat) (ip : Nat) :
    (liveFrom s g ip).card ≤ (live s).card := Finset.card_filter_le _ _

theorem Accounted.handleIpCount (h : Accounted s g) (hlt : s.sChildren + 1 < sChildrenMax) (ip : Nat) :
    handleIpCount s ip = (liveFrom s g ip).card + 1 := by
  have hle := card_from_le s g ip
  have hc := h.children
  unfold Myftpd.handleIpCount
  rw [h.ips ip]
  by_cases h0 : (liveFrom s g ip).card = 0
  · rw [if_pos h0, h0]
  · rw [if_neg h0]
    unfold sChildrenMax at hlt
    exact Nat.mod_eq_of_lt (by omega)

/-- **One step**: the counts stay right unless it ends a session. -/
theorem accounted_step (hn : s.ledger.Numbered) (hen : enabled s l) (he : exec c s l = .ok s')
    (h : Accounted s g) : Accounted s' (peers c g s l s') ↔ Unclosed c (s, g) l := by
  have hb := exec_books hen he
  unfold Unclosed
  cases ha : admits c s l with
  | some ip =>
    have h0 : ends c s l = none := admits_ends hen he (by rw [ha]; exact Option.some_ne_none ip)
    obtain ⟨h1, h2⟩ := counts_admitted hb ha
    have hcard := card_admitted hn hen he ha
    have hc := h.children
    constructor
    · intro h'
      refine ⟨h0, fun _ => ?_⟩
      have h3 := h'.children
      rw [h1, hcard] at h3
      by_contra hge
      have hlt : (s.sChildren + 1) % sChildrenMax < sChildrenMax := Nat.mod_lt _ (by decide)
      dsimp only at hge
      omega
    · rintro ⟨-, hlt⟩
      have hlt' : s.sChildren + 1 < sChildrenMax := hlt (Option.some_ne_none ip)
      refine ⟨?_, fun j => ?_⟩
      · rw [h1, hcard, Nat.mod_eq_of_lt hlt', hc]
      · rw [h2, from_admitted hn hen he ha j, Function.update_apply]
        by_cases hj : j = ip
        · have hnm : s.nextSid ∉ liveFrom s g j := fun hm => next_not_live (Finset.mem_of_mem_filter _ hm)
          rw [if_pos hj, if_pos hj, Finset.card_insert_of_notMem hnm, if_neg (Nat.succ_ne_zero _), ← hj,
            h.handleIpCount hlt']
        · rw [if_neg hj, if_neg hj]
          exact h.ips j
  | none =>
    obtain ⟨h1, h2⟩ := counts_same hb ha
    cases hend : ends c s l with
    | none =>
      refine ⟨fun _ => ⟨rfl, fun h => absurd rfl h⟩, fun _ => ⟨?_, fun j => ?_⟩⟩
      · rw [h1, live_same hn hen he ha hend]
        exact h.children
      · rw [h2, from_same hn hen he hend ha j]
        exact h.ips j
    | some sid =>
      refine ⟨fun h' => ?_, fun h' => nomatch h'.1⟩
      have h3 := h'.children
      have hcard := card_ended hn hen he hend
      rw [h1, h.children] at h3
      omega

theorem accounted_reach {p : Server × (Sid → Option Nat)} (h : PeerReach c (Unclosed c) p) :
    Accounted p.1 p.2 := by
  refine Runs.Reach.noted (J := fun s => s.ledger.Numbered) (I := fun p => Accounted p.1 p.2)
    (fun s hs => numbered_reach hs) ?_ ?_ h
  · rintro s ⟨fds, -, rfl⟩
    exact ⟨rfl, fun ip => rfl⟩
  · rintro s g l s' hn hi hc ⟨hen, he⟩
    exact (accounted_step hn hen he hi).mpr hc

theorem numbered_peer {C : Server × (Sid → Option Nat) → Label → Prop} {p : Server × (Sid → Option Nat)}
    (h : PeerReach c C p) : p.1.ledger.Numbered :=
  numbered_reach (h.forget (C := Runs.Any) fun _ _ _ => trivial)

/-- **The counts are right** in a run in which no session ends, and the first step that ends one makes
them wrong. -/
theorem accounts_kept {p : Server × (Sid → Option Nat)} (h : PeerReach c (Unclosed c) p) :
    Accounted p.1 p.2 ∧ ∀ l s', enabled p.1 l → exec c p.1 l = .ok s' →
      (Accounted s' (peers c p.2 p.1 l s') ↔ Unclosed c p l) :=
  ⟨accounted_reach h, fun _ _ hen he => accounted_step (numbered_peer h) hen he (accounted_reach h)⟩

/-! ## the two limits -/

/-- a connection is attempted while `max_clients` sessions are live, and no more have been counted -/
def AtLimit (c : Conf) (s : Server) : Label → Prop
  | .acceptOne _ => (live s).card = c.maxClients ∧ s.sChildren ≤ c.maxClients
  | _ => False

/-- a connection from an address with `max_per_ip` live sessions is attempted, and the total limit does
not refuse it -/
def AtIpLimit (c : Conf) (p : Server × (Sid → Option Nat)) : Label → Prop
  | .acceptOne conn => (liveFrom p.1 p.2 conn.ip).card = c.maxPerIp ∧
      ¬ (c.maxClients > 0 ∧ p.1.sChildren > c.maxClients)
  | _ => False

instance (c : Conf) (s : Server) (l : Label) : Decidable (AtLimit c s l) := by
  unfold AtLimit
  split <;> infer_instance

instance (c : Conf) (p : Server × (Sid → Option Nat)) (l : Label) : Decidable (AtIpLimit c p l) := by
  unfold AtIpLimit
  split <;> infer_instance

/-- **Which connections are admitted**: the limit for one address refuses none, because the field
`num_this_ip` is still 0. -/
theorem isValid_iff : isValid c (newSession s) = none ↔ ¬ (c.maxClients > 0 ∧ s.sChildren > c.maxClients) := by
  unfold isValid
  by_cases h : c.maxClients > 0 ∧ (newSession s).numClients > c.maxClients
  · rw [if_pos h]
    exact ⟨nofun, fun h' => absurd h h'⟩
  · rw [if_neg h, if_neg fun h' => Nat.not_lt_zero _ h'.2]
    exact ⟨fun _ => h, fun _ => rfl⟩

theorem admits_iff : admits c s l = some ip ↔
    ∃ conn, l = .acceptOne conn ∧ conn.ip = ip ∧ ¬ (c.maxClients > 0 ∧ s.sChildren > c.maxClients) := by
  rw [← isValid_iff]
  constructor
  · intro h
    cases l with
    | acceptOne conn =>
      cases hv : isValid c (newSession s) with
      | none =>
        cases (admits_some hv).symm.trans h
        exact ⟨conn, rfl, rfl, rfl⟩
      | some r => cases (admits_none hv).symm.trans h
    | _ => cases h
  · rintro ⟨conn, rfl, rfl, hv⟩
    exact admits_some hv

theorem atLimit_iff (h0 : 0 < c.maxClients) : AtLimit c s l ↔
    admits c s l ≠ none ∧ (live s).card = c.maxClients := by
  rw [Option.ne_none_iff_exists']
  constructor
  · intro h
    cases l with
    | acceptOne conn =>
      obtain ⟨h1, h2⟩ := h
      exact ⟨⟨conn.ip, admits_iff.mpr ⟨conn, rfl, rfl, fun h => Nat.not_lt.mpr h2 h.2⟩⟩, h1⟩
    | _ => exact h.elim
  · rintro ⟨⟨ip, ha⟩, h1⟩
    obtain ⟨conn, rfl, -, hv⟩ := admits_iff.mp ha
    exact ⟨h1, Nat.not_lt.mp fun h => hv ⟨h0, h⟩⟩

theorem atIpLimit_iff : AtIpLimit c (s, g) l ↔
    ∃ ip, admits c s l = some ip ∧ (liveFrom s g ip).card = c.maxPerIp := by
  constructor
  · intro h
    cases l with
    | acceptOne conn => exact ⟨conn.ip, admits_iff.mpr ⟨conn, rfl, rfl, h.2⟩, h.1⟩
    | _ => exact h.elim
  · rintro ⟨ip, ha, h1⟩
    obtain ⟨conn, rfl, rfl, hv⟩ := admits_iff.mp ha
    exact ⟨h1, hv⟩

/-- **One step** keeps the total limit unless it admits a connection when the limit is reached. -/
theorem limit_step (h0 : 0 < c.maxClients) (hn : s.ledger.Numbered) (hen : enabled s l)
    (he : exec c s l = .ok s') (h : (live s).card ≤ c.maxClients) :
    (live s').card ≤ c.maxClients ↔ ¬ AtLimit c s l := by
  rw [atLimit_iff h0]
  cases ha : admits c s l with
  | some ip =>
    rw [card_admitted hn hen he ha]
    constructor
    · rintro h1 ⟨-, h2⟩
      omega
    · intro h1
      have h2 : (live s).card ≠ c.maxClients := fun e => h1 ⟨Option.some_ne_none ip, e⟩
      omega
  | none =>
    refine ⟨fun _ h' => h'.1 rfl, fun _ => ?_⟩
    cases hend : ends c s l with
    | none =>
      rw [live_same hn hen he ha hend]
      exact h
    | some sid =>
      have hcard := card_ended hn hen he hend
      omega

/-- **One step** keeps the limit for every address unless it admits a connection from an address that
has reached it. -/
theorem ip_limit_step (hn : s.ledger.Numbered) (hen : enabled s l) (he : exec c s l = .ok s')
    (h : ∀ ip, (liveFrom s g ip).card ≤ c.maxPerIp) :
    (∀ ip, (liveFrom s' (peers c g s l s') ip).card ≤ c.maxPerIp) ↔ ¬ AtIpLimit c (s, g) l := by
  rw [atIpLimit_iff]
  cases ha : admits c s l with
  | some ip =>
    have hins : ∀ j, (liveFrom s' (peers c g s l s') j).card =
        if j = ip then (liveFrom s g j).card + 1 else (liveFrom s g j).card := by
      intro j
      have hnm : s.nextSid ∉ liveFrom s g j := fun hm => next_not_live (Finset.mem_of_mem_filter _ hm)
      rw [from_admitted hn hen he ha j]
      split
      · rw [Finset.card_insert_of_notMem hnm]
      · rfl
    constructor
    · rintro h1 ⟨j, ⟨rfl⟩, h2⟩
      have h3 := h1 ip
      rw [hins ip, if_pos rfl, h2] at h3
      omega
    · intro h1 j
      have hj := h j
      rw [hins j]
      split
      · rename_i e
        have h2 : (liveFrom s g ip).card ≠ c.maxPerIp := fun e' => h1 ⟨ip, rfl, e'⟩
        rw [e] at hj ⊢
        omega
      · exact hj
  | none =>
    refine ⟨fun _ ⟨ip, h', _⟩ => (nomatch h'), fun _ j => ?_⟩
    have hj := h j
    cases hend : ends c s l with
    | none =>
      rw [from_same hn hen he hend ha j]
      exact hj
    | some sid =>
      rw [from_ended hn hen he hend ha j]
      exact (Finset.card_le_card (Finset.erase_subset _ _)).trans hj

/-- **The total limit** holds as long as no connection is attempted when it is reached and nothing has
been counted beyond it; that connection is admitted. -/
theorem limit_kept (h0 : 0 < c.maxClients) (h : Reach c (fun s l => ¬ AtLimit c s l) s) :
    (live s).card ≤ c.maxClients ∧ ∀ l s', enabled s l → exec c s l = .ok s' →
      ((live s').card ≤ c.maxClients ↔ ¬ AtLimit c s l) := by
  have hle : (live s).card ≤ c.maxClients := by
    refine Runs.Reach.inv_with (J := fun s => s.ledger.Numbered)
      (I := fun s => (live s).card ≤ c.maxClients) (fun s hs => numbered_reach hs) ?_ ?_ h
    · rintro s ⟨fds, -, rfl⟩
      exact Nat.zero_le _
    · rintro s l s' hn hi hc ⟨hen, he⟩
      exact (limit_step h0 hn hen he hi).mpr hc
  exact ⟨hle, fun l s' hen he => limit_step h0 (numbered_reach h) hen he hle⟩

/-- **The limit for one address** holds as long as no connection is attempted from an address that has
reached it; such a connection is admitted unless the total limit refuses it. -/
theorem ip_limit_kept {p : Server × (Sid → Option Nat)}
    (h : PeerReach c (fun p l => ¬ AtIpLimit c p l) p) :
    (∀ ip, (liveFrom p.1 p.2 ip).card ≤ c.maxPerIp) ∧ ∀ l s', enabled p.1 l → exec c p.1 l = .ok s' →
      ((∀ ip, (liveFrom s' (peers c p.2 p.1 l s') ip).card ≤ c.maxPerIp) ↔ ¬ AtIpLimit c p l) := by
  have hle : ∀ ip, (liveFrom p.1 p.2 ip).card ≤ c.maxPerIp := by
    refine Runs.Reach.noted (J := fun s => s.ledger.Numbered)
      (I := fun p => ∀ ip, (liveFrom p.1 p.2 ip).card ≤ c.maxPerIp) (fun s hs => numbered_reach hs) ?_ ?_ h
    · rintro s ⟨fds, -, rfl⟩ ip
      exact Nat.zero_le _
    · rintro s g l s' hn hi hc ⟨hen, he⟩
      exact (ip_limit_step hn hen he hi).mpr hc
  exact ⟨hle, fun l s' hen he => ip_limit_step (numbered_peer h) hen he hle⟩

end

/-- a client that connects and says NOOP, and one more -/
def twoClients : List Label := connects ++ sends 5 "NOOP" ++ connects

theorem accounts_kept_two : ∃ p, PeerReach sampleConf (Unclosed sampleConf) p ∧
    (live p.1).card = 2 ∧ Accounted p.1 p.2 := by
  obtain ⟨p, hs, hp⟩ := noted_of_play (t := fun p => decide ((live p.1).card = 2))
    (sampleNoted (fun _ => none) (peers sampleConf) (Unclosed sampleConf))
    (show (playNoted sampleConf (peers sampleConf) (Unclosed sampleConf) (sampleBoot, fun _ => none)
      twoClients).any _ = true by decide +kernel)
  exact ⟨p, hs, of_decide_eq_true hp, (accounts_kept hs).1⟩

/-- after QUIT the client is still counted -/
theorem counted_after_quit : ¬ ∀ c p, PeerReach c Runs.Any p → Accounted p.1 p.2 := by
  intro h
  obtain ⟨p, hs, hp⟩ := noted_of_play (t := fun p => decide ((live p.1).card = 0 ∧ p.1.sChildren = 1))
    (sampleNoted (fun _ => none) (peers sampleConf) Runs.Any)
    (show (playNoted sampleConf (peers sampleConf) Runs.Any (sampleBoot, fun _ => none)
      (connects ++ sends 5 "QUIT")).any _ = true by decide +kernel)
  obtain ⟨h1, h2⟩ := of_decide_eq_true hp
  have h3 := (h _ p hs).children
  rw [h1, h2] at h3
  cases h3

/-- a server for one client at a time, and for one client from every address -/
def smallConf (total perIp : Nat) : Conf := { sampleConf with maxClients := total, maxPerIp := perIp }

theorem smallReach (total perIp : Nat) (C : Server → Label → Prop) :
    Reach (smallConf total perIp) C sampleBoot :=
  Runs.Reach.init ⟨sampleFds, ⟨rfl, rfl, sampleBoots.std⟩, rfl⟩

theorem smallPeered (total perIp : Nat) (D : Server × (Sid → Option Nat) → Label → Prop) :
    PeerReach (smallConf total perIp) D (sampleBoot, fun _ => none) :=
  Runs.Reach.init ⟨⟨sampleFds, ⟨rfl, rfl, sampleBoots.std⟩, rfl⟩, rfl⟩

/-- one client of at most two -/
theorem limit_kept_one : ∃ s, Reach (smallConf 2 0) (fun s l => ¬ AtLimit (smallConf 2 0) s l) s ∧
    (live s).card = 1 ∧ (live s).card ≤ (smallConf 2 0).maxClients := by
  obtain ⟨s, hs, hp⟩ := reach_of_play (p := fun s => decide ((live s).card = 1))
    (smallReach 2 0 fun s l => ¬ AtLimit (smallConf 2 0) s l)
    (show (play (smallConf 2 0) _ sampleBoot connects).any _ = true by decide +kernel)
  exact ⟨s, hs, of_decide_eq_true hp, (limit_kept (by decide) hs).1⟩

/-- with `max_clients` 1 two clients are let in -/
theorem limit_passed : ¬ ∀ c s, 0 < c.maxClients → Reach c Runs.Any s →
    (live s).card ≤ c.maxClients := by
  intro h
  obtain ⟨s, hs, hp⟩ := reach_of_play (p := fun s => decide ((live s).card = 2))
    (smallReach 1 0 Runs.Any)
    (show (play (smallConf 1 0) _ sampleBoot (connects ++ connects)).any _ = true by decide +kernel)
  have h1 := h _ s (by decide) hs
  rw [of_decide_eq_true hp] at h1
  exact absurd h1 (by decide)

/-- one client from an address that may have two -/
theorem ip_limit_kept_one : ∃ p, PeerReach (smallConf 0 2)
      (fun p l => ¬ AtIpLimit (smallConf 0 2) p l) p ∧
    (liveFrom p.1 p.2 1).card = 1 ∧ ∀ ip, (liveFrom p.1 p.2 ip).card ≤ (smallConf 0 2).maxPerIp := by
  obtain ⟨p, hs, hp⟩ := noted_of_play (t := fun p => decide ((liveFrom p.1 p.2 1).card = 1))
    (smallPeered 0 2 fun p l => ¬ AtIpLimit (smallConf 0 2) p l)
    (show (playNoted (smallConf 0 2) (peers (smallConf 0 2))
      (fun p l => ¬ AtIpLimit (smallConf 0 2) p l) (sampleBoot, fun _ => none) connects).any _ = true by
        decide +kernel)
  exact ⟨p, hs, of_decide_eq_true hp, (ip_limit_kept hs).1⟩

/-- with `max_per_ip` 1 two clients from one address are let in -/
theorem ip_limit_passed : ¬ ∀ c p, 0 < c.maxPerIp → PeerReach c Runs.Any p →
    ∀ ip, (liveFrom p.1 p.2 ip).card ≤ c.maxPerIp := by
  intro h
  obtain ⟨p, hs, hp⟩ := noted_of_play (t := fun p => decide ((liveFrom p.1 p.2 1).card = 2))
    (smallPeered 0 1 Runs.Any)
    (show (playNoted (smallConf 0 1) (peers (smallConf 0 1)) Runs.Any (sampleBoot, fun _ => none)
      (connects ++ connects)).any _ = true by decide +kernel)
  have h1 := h _ p (by decide) hs 1
  rw [of_decide_eq_true hp] at h1
  exact absurd h1 (by decide)

end Myftpd
