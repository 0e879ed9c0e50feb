import Myftpd.Accounts
import Myftpd.Parseconf

/-!
# Every connection counts

`s_children` is the number of sessions that there have ever been, and the total limit is compared with it before it
goes up.

* `served`              the sessions that have been admitted;
* `admissions_limited`  a server with a limit admits one more session than the limit says, and after that none, also
                        when all of them have ended;
* `configured_quota`    what a configuration file says about it.
-/

namespace Myftpd
open CMem Server

/-- the sessions that have been admitted, after a step -/
def served (c : Conf) (g : Finset Sid) (s : Server) (l : Label) (_ : Server) : Finset Sid :=
  if admits c s l = none then g else insert s.nextSid g

/-- the server, with the sessions that it has admitted -/
abbrev serving (c : Conf) : Runs.System (Server × Finset Sid) Label := (sys c).recording ∅ (served c)

/-- `s_children` counts the sessions that have been admitted, and these are not more than one beyond the limit -/
structure Counted (c : Conf) (s : Server) (g : Finset Sid) : Prop where
  numbered : s.ledger.Numbered
  old : ∀ sid ∈ g, sid < s.nextSid
  children : s.sChildren = g.card
  bound : g.card ≤ c.maxClients + 1
  live : live s ⊆ g

section
variable {c : Conf} {s s' : Server} {l : Label} {g : Finset Sid} {p q : Server × Finset Sid}

theorem counted_boot (h : (serving c).init p) : Counted c p.1 p.2 := by
  obtain ⟨s, g⟩ := p
  obtain ⟨hi, rfl⟩ := h
  have hn : s.ledger.Numbered := numbered_reach (C := Runs.Any) (.init hi)
  obtain ⟨fds, -, rfl⟩ := hi
  exact ⟨hn, nofun, rfl, Nat.zero_le _, Finset.Subset.refl _⟩

theorem Counted.admits_iff (h : Counted c s g) (h0 : 0 < c.maxClients) (conn : Conn) :
    admits c s (.acceptOne conn) ≠ none ↔ g.card ≤ c.maxClients := by
  have hiff : admits c s (.acceptOne conn) ≠ none ↔ ¬ (c.maxClients > 0 ∧ s.sChildren > c.maxClients) := by
    rw [Option.ne_none_iff_exists']
    constructor
    · rintro ⟨ip, ha⟩
      exact (Myftpd.admits_iff.mp ha).choose_spec.2.2
    · intro hv
      exact ⟨conn.ip, Myftpd.admits_iff.mpr ⟨conn, rfl, rfl, hv⟩⟩
  rw [hiff, h.children]
  omega

theorem Counted.room (h : Counted c s g) (h0 : 0 < c.maxClients) (ha : admits c s l ≠ none) :
    g.card ≤ c.maxClients := by
  cases l with
  | acceptOne conn => exact (h.admits_iff h0 conn).mp ha
  | _ => exact absurd rfl ha

/-- **One step.** -/
theorem counted_step (h0 : 0 < c.maxClients) (hmax : c.maxClients + 1 < sChildrenMax) (hen : enabled s l)
    (he : exec c s l = .ok s') (h : Counted c s g) : Counted c s' (served c g s l s') := by
  obtain ⟨op, ho⟩ := exec_step hen he
  have hb : Booked c s l s'.books := exec_books hen he
  have hn : s'.ledger.Numbered := ho.step.numbered h.numbered
  unfold served
  split
  · rename_i ha
    refine ⟨hn, fun sid hs => (h.old sid hs).trans_le ho.step.nextSid_le, (counts_same hb ha).1.trans h.children,
      h.bound, fun sid hs => h.live ?_⟩
    cases hend : ends c s l with
    | none => rwa [live_same h.numbered hen he ha hend] at hs
    | some j =>
      rw [(live_ended h.numbered hen he hend).2] at hs
      exact Finset.mem_of_mem_erase hs
  · rename_i ha
    have hroom := h.room h0 ha
    have hnew : s.nextSid ∉ g := fun hm => Nat.lt_irrefl _ (h.old _ hm)
    have hcard : (insert s.nextSid g).card = g.card + 1 := Finset.card_insert_of_notMem hnew
    have hlive : live s' = insert s.nextSid (live s) := live_admitted h.numbered hen he ha
    refine ⟨hn, fun sid hs => ?_, ?_, ?_, ?_⟩
    · rcases Finset.mem_insert.mp hs with rfl | hs
      · have hin : s.nextSid ∈ live s' := hlive ▸ Finset.mem_insert_self _ _
        obtain ⟨z, hz⟩ := (mem_live_ledger hn).mp hin
        exact hn.sess _ z hz
      · exact (h.old sid hs).trans_le ho.step.nextSid_le
    · obtain ⟨ip, hip⟩ := Option.ne_none_iff_exists'.mp ha
      rw [(counts_admitted hb hip).1, h.children, hcard, Nat.mod_eq_of_lt]
      omega
    · omega
    · rw [hlive]
      exact Finset.insert_subset_insert _ h.live

theorem counted_reach (h0 : 0 < c.maxClients) (hmax : c.maxClients + 1 < sChildrenMax)
    (h : Runs.Reach (serving c) Runs.Any p) : Counted c p.1 p.2 := by
  refine Runs.Reach.inv (I := fun p => Counted c p.1 p.2) (fun p hp => counted_boot hp) ?_ h
  rintro ⟨s, g⟩ l ⟨s', g'⟩ hi - ⟨⟨hen, he⟩, hg⟩
  have hg' : g' = served c g s l s' := hg
  rw [hg']
  exact counted_step h0 hmax hen he hi

/-- **The limit is one for the whole life of the server.**  At most one session more than `max_clients` is ever
admitted, a connection is admitted exactly as long as no more than `max_clients` have been, whatever has become of
these, and from then on none is. -/
theorem admissions_limited (h0 : 0 < c.maxClients) (hmax : c.maxClients + 1 < sChildrenMax)
    (h : Runs.Reach (serving c) Runs.Any p) : p.2.card ≤ c.maxClients + 1 ∧ live p.1 ⊆ p.2 ∧
      (∀ conn, admits c p.1 (.acceptOne conn) ≠ none ↔ p.2.card ≤ c.maxClients) ∧
      (p.2.card = c.maxClients + 1 → ∀ q, Runs.Path (serving c) Runs.Any p q → q.2 = p.2) := by
  have hp := counted_reach h0 hmax h
  refine ⟨hp.bound, hp.live, hp.admits_iff h0, fun hfull q hq => ?_⟩
  have hkept : Counted c q.1 q.2 ∧ q.2 = p.2 := by
    refine Runs.Path.inv (I := fun q => Counted c q.1 q.2 ∧ q.2 = p.2) ?_ hq ⟨hp, rfl⟩
    rintro ⟨s, g⟩ l ⟨s', g'⟩ ⟨hi, rfl⟩ - ⟨⟨hen, he⟩, hg⟩
    have hg' : g' = served c p.2 s l s' := hg
    have hnone : admits c s l = none := by
      by_contra ha
      have hroom : p.2.card ≤ c.maxClients := hi.room h0 ha
      omega
    rw [hg']
    refine ⟨counted_step h0 hmax hen he hi, ?_⟩
    exact if_pos hnone
  exact hkept.2

/-! ## the limit of a file -/

def Tunables.conf (t : Tunables) (c : Conf) : Conf :=
  { c with
    maxClients := t.uint .maxClients
    maxPerIp := t.uint .maxPerIp
    idleSessionTimeout := t.uint .idleSessionTimeout
    localUmask := t.uint .localUmask }

/-- **From the file to the clients.**  The last `max_clients` of a configuration file says how many connections the
server admits before it admits one more and then none; a file without it stands for 2000. -/
theorem configured_quota {file : List UInt8} {t : Tunables} (h : ∀ line ∈ file.splitOn LF, ConfLine line)
    (ht : parseconfLoadFile file tunables = .ok t) (hp : Runs.Reach (serving (t.conf c)) Runs.Any p) :
    (given file (ascii "max_clients") = [] → p.2.card ≤ 2001) ∧
      ∀ v, (given file (ascii "max_clients")).getLast? = some v → 0 < uintValue v → uintValue v + 1 < sChildrenMax →
        p.2.card ≤ uintValue v + 1 := by
  have hlast : t.uint .maxClients =
      ((given file (ascii "max_clients")).map uintValue).getLast?.getD (tunables.uint .maxClients) := by
    rw [loadFile_ok h ((loadFile_ok_iff h).mp ⟨t, ht⟩), Except.ok.injEq] at ht
    rw [← ht]
    exact (lastGiven_foldl file tunables).uint _ _ (by decide)
  constructor
  · intro hnone
    have hmax : t.uint .maxClients = 2000 := by rw [hlast, hnone]; rfl
    have hc : Counted (t.conf c) p.1 p.2 := counted_reach (show 0 < t.uint .maxClients by omega)
      (show t.uint .maxClients + 1 < 2^32 by omega) hp
    have hbound : p.2.card ≤ t.uint .maxClients + 1 := hc.bound
    omega
  · intro v hv h0 hmax
    have hval : t.uint .maxClients = uintValue v := by
      rw [hlast, List.getLast?_map, hv]
      rfl
    have hc : Counted (t.conf c) p.1 p.2 := counted_reach (show 0 < t.uint .maxClients by omega)
      (show t.uint .maxClients + 1 < sChildrenMax by omega) hp
    have hbound : p.2.card ≤ t.uint .maxClients + 1 := hc.bound
    omega

end

/-- two clients come and go, and with a limit of one client nobody is admitted any more -/
theorem admissions_limited_spent : ∃ p : Server × Finset Sid, live p.1 = ∅ ∧
    (∀ conn, admits (smallConf 1 0) p.1 (.acceptOne conn) = none) ∧
    ∀ q, Runs.Path (serving (smallConf 1 0)) Runs.Any p q → q.2 = p.2 := by
  obtain ⟨p, hp, ht⟩ := noted_of_play (t := fun p : Server × Finset Sid => decide (live p.1 = ∅ ∧ p.2.card = 2))
    (Runs.Reach.init (T := serving (smallConf 1 0)) (C := Runs.Any)
      ⟨⟨sampleFds, ⟨rfl, rfl, sampleBoots.std⟩, rfl⟩, rfl⟩ : Runs.Reach _ _ (sampleBoot, ∅))
    (show (playNoted (smallConf 1 0) (served (smallConf 1 0)) Runs.Any (sampleBoot, ∅)
      (connects ++ sends 5 "QUIT" ++ connects ++ sends 5 "QUIT")).any _ = true by decide +kernel)
  obtain ⟨hlive, hcard⟩ := of_decide_eq_true ht
  obtain ⟨-, -, hadmits, hfull⟩ := admissions_limited (by decide) (by decide) hp
  refine ⟨p, hlive, fun conn => ?_, hfull hcard⟩
  by_contra ha
  have hroom := (hadmits conn).mp ha
  rw [hcard] at hroom
  exact absurd hroom (by decide)

/-- two clients of a server whose file says `max_clients=1` -/
def oneClient : List UInt8 := ascii "max_clients=1" ++ [LF]

theorem configured_quota_one : ∃ (t : Tunables) (p : Server × Finset Sid), parseconfLoadFile oneClient tunables = .ok t ∧
    p.2.card = 2 ∧ p.2.card ≤ uintValue (ascii "1") + 1 := by
  have hlines : ∀ line ∈ oneClient.splitOn LF, ConfLine line := by
    have hsplit : oneClient.splitOn LF = [ascii "max_clients=1", []] := by decide
    rw [hsplit]
    simp only [List.forall_mem_cons]
    refine ⟨?_, confLine_nil, nofun⟩
    constructor <;> decide
  have honce : SetOnce (assignments oneClient) tunables := by
    intro key p hp
    cases List.mem_singleton.mp hp
    decide
  have ht := loadFile_ok hlines honce
  obtain ⟨p, hp, hcard⟩ := noted_of_play (t := fun p : Server × Finset Sid => decide (p.2.card = 2))
    (Runs.Reach.init (T := serving (Tunables.conf ((assignments oneClient).foldl (fun t a => assign t a.1 a.2) tunables)
      sampleConf)) (C := Runs.Any) ⟨⟨sampleFds, ⟨rfl, rfl, sampleBoots.std⟩, rfl⟩, rfl⟩ :
      Runs.Reach _ _ (sampleBoot, ∅))
    (show (playNoted _ (served _) Runs.Any (sampleBoot, ∅) (connects ++ connects)).any _ = true by decide +kernel)
  exact ⟨_, p, ht, of_decide_eq_true hcard,
    (configured_quota hlines ht hp).2 (ascii "1") (by decide) (by decide) (by decide)⟩

end Myftpd
