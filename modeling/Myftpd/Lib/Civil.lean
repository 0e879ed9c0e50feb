import Mathlib.Algebra.Ring.Nat

/-!
# Dates of the Gregorian calendar

Days are numbered from 1 January 1970.  Internally a year begins in March, so that the leap day is its last: the
day number is split into cycles of 400, 100, 4 and 1 years, and the rest is looked up in the table of months.

* `Date`             year, month and day, within their ranges;
* `Date.ofDay`       the date of a day;
* `Date.number`      the day of a date;
* `number_ofDay`     the one undoes the other, so different days have different dates.
-/

namespace Civil

/-- year, month from 0 for January, and day from 1 -/
@[ext]
structure Date where
  year : Int
  month : Nat
  day : Nat
  month_lt : month < 12
  day_pos : 0 < day
  day_le : day ≤ 31
  deriving DecidableEq, Repr

/-- the lengths of the months from March to February -/
def monthDays : List Nat := [31, 30, 31, 30, 31, 31, 30, 31, 30, 31, 31, 29]

/-- the month in which day `d` lies, and the day in it, both from 0 -/
def scan : List Nat → Nat → Nat × Nat
  | [], d => (0, d)
  | n :: ns, d => if n ≤ d then ((scan ns (d - n)).1 + 1, (scan ns (d - n)).2) else (0, d)

/-- the year from March that day `z` lies in, and the day in it from 0 -/
def marchYear (z : Int) : Int × Nat :=
  let t := z - 11017  -- from 1 March 2000
  let d := (t % 146097).toNat
  let c := min (d / 36524) 3
  let d := d - c * 36524
  let q := min (d / 1461) 24
  let d := d - q * 1461
  let r := min (d / 365) 3
  (2000 + 400 * (t / 146097) + 100 * c + 4 * q + r, d - r * 365)

/-- the days before year `y`, from a fixed day on -/
def yearDays (y : Int) : Int := 365 * y + y / 4 - y / 100 + y / 400

theorem yearDays_cycles (a : Int) {c q r : Nat} (hc : c ≤ 3) (hq : q ≤ 24) (hr : r ≤ 3) :
    yearDays (2000 + 400 * a + 100 * c + 4 * q + r) = 730485 + 146097 * a + 36524 * c + 1461 * q + 365 * r := by
  unfold yearDays
  omega

/-- the days of a cycle of 400 years, by the smaller cycles -/
theorem split_days {d : Nat} (h : d < 146097) : ∃ c q r e, c = min (d / 36524) 3 ∧ q = min ((d - c * 36524) / 1461) 24 ∧
    r = min ((d - c * 36524 - q * 1461) / 365) 3 ∧ e = d - c * 36524 - q * 1461 - r * 365 ∧ e ≤ 365 ∧
      d = 36524 * c + 1461 * q + 365 * r + e := by
  refine ⟨_, _, _, _, rfl, rfl, rfl, rfl, ?_⟩
  omega

/-- **The two parts of a day number.** -/
theorem marchYear_spec (z : Int) :
    yearDays (marchYear z).1 + (marchYear z).2 = z + 719468 ∧ (marchYear z).2 ≤ 365 := by
  have hlt : ((z - 11017) % 146097).toNat < 146097 := by omega
  obtain ⟨c, q, r, e, hc, hq, hr, he, h365, hd⟩ := split_days hlt
  have hparts : marchYear z = (2000 + 400 * ((z - 11017) / 146097) + 100 * c + 4 * q + r, e) := by
    rw [he, hr, hq, hc]
    rfl
  rw [hparts]
  refine ⟨?_, h365⟩
  rw [yearDays_cycles _ (by omega) (by omega) (by omega)]
  omega

/-- a day is found in one of the months, behind those before it -/
theorem scan_parts {ns : List Nat} {d k : Nat} (h : d < ns.sum) (hk : ∀ n ∈ ns, n ≤ k) :
    (scan ns d).1 < ns.length ∧ (scan ns d).2 < k ∧ (ns.take (scan ns d).1).sum + (scan ns d).2 = d := by
  induction ns generalizing d with
  | nil => exact absurd h (Nat.not_lt_zero d)
  | cons n ns ih =>
    rw [List.sum_cons] at h
    rw [List.forall_mem_cons] at hk
    unfold scan
    by_cases hn : n ≤ d
    · obtain ⟨h1, h2, h3⟩ := ih (d := d - n) (by omega) hk.2
      rw [if_pos hn]
      refine ⟨Nat.succ_lt_succ h1, h2, ?_⟩
      rw [List.take_succ_cons, List.sum_cons]
      omega
    · rw [if_neg hn]
      refine ⟨Nat.succ_pos _, by omega, ?_⟩
      rw [List.take_zero, List.sum_nil, Nat.zero_add]

theorem scan_spec (d : Nat) (h : d ≤ 365) : (scan monthDays d).1 < 12 ∧ (scan monthDays d).2 < 31 ∧
    (monthDays.take (scan monthDays d).1).sum + (scan monthDays d).2 = d :=
  scan_parts (k := 31) (show d < monthDays.sum from Nat.lt_succ_of_le h) (by decide)

/-- the date of day `z` -/
def Date.ofDay (z : Int) : Date where
  year := if (scan monthDays (marchYear z).2).1 < 10 then (marchYear z).1 else (marchYear z).1 + 1
  month := ((scan monthDays (marchYear z).2).1 + 2) % 12
  day := (scan monthDays (marchYear z).2).2 + 1
  month_lt := Nat.mod_lt _ (by decide)
  day_pos := Nat.succ_pos _
  day_le := (scan_spec _ (marchYear_spec z).2).2.1

def Date.number (x : Date) : Int :=
  yearDays (if x.month < 2 then x.year - 1 else x.year) + (monthDays.take ((x.month + 10) % 12)).sum + (x.day - 1) - 719468

/-- a month from March on, as a date has it -/
theorem number_parts (y : Int) {i : Nat} (k : Nat) (hi : i < 12) :
    yearDays (if (i + 2) % 12 < 2 then (if i < 10 then y else y + 1) - 1 else if i < 10 then y else y + 1) +
      (monthDays.take (((i + 2) % 12 + 10) % 12)).sum + (((k + 1 : Nat) : Int) - 1) - 719468 =
        yearDays y + (((monthDays.take i).sum + k : Nat) : Int) - 719468 := by
  have hmonth : ((i + 2) % 12 + 10) % 12 = i := by omega
  have hyear : (if (i + 2) % 12 < 2 then (if i < 10 then y else y + 1) - 1 else if i < 10 then y else y + 1) = y := by
    by_cases h : i < 10
    · rw [if_neg (by omega), if_pos h]
    · rw [if_pos (by omega), if_neg h]
      omega
  rw [hmonth, hyear]
  omega

/-- **The day of the date of a day.** -/
theorem number_ofDay (z : Int) : (Date.ofDay z).number = z := by
  obtain ⟨h1, h2⟩ := marchYear_spec z
  obtain ⟨h3, -, h4⟩ := scan_spec _ h2
  refine (number_parts (marchYear z).1 (scan monthDays (marchYear z).2).2 h3).trans ?_
  rw [h4, h1]
  omega

theorem ofDay_inj {z w : Int} : Date.ofDay z = Date.ofDay w ↔ z = w := by
  refine ⟨fun h => ?_, fun h => by rw [h]⟩
  rw [← number_ofDay z, h, number_ofDay]

example : (Date.ofDay 0).year = 1970 ∧ (Date.ofDay 0).month = 0 ∧ (Date.ofDay 0).day = 1 := by
  decide +kernel
example : (Date.ofDay 11016).month = 1 ∧ (Date.ofDay 11016).day = 29 := by decide +kernel

end Civil
