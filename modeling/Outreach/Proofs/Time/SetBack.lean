import Outreach.Proofs.Time.Localize

/-!
# Outreach.Proofs.Time.SetBack

How far a clock is ahead of where it will be. A clock that is set back shows some wall times twice,
so the order of wall times is not that of the instants. But if it is never set back by as much as it
has gone on since the change before, a change is caught up for good before the next one, and the
first instants of two wall times are in the order of the wall times.

* `Zone.SetsBackAtMost`, `Zone.ChangesOnMinutes` — what is assumed of a zone beside `Zone.Apart`.
* `Zone.wallTime_le_later` — a clock never shows much less than it did.
* `Zone.exists_earlier` — a clock that is past a wall time has shown it, if it ever does.
* `Zone.earliest?_le` — the earliest instant of a wall time is before all of later wall times.
* `Zone.localize_le` — what `localize` gives for a wall time that the clock is past is past.
-/

namespace Outreach
namespace Zone

variable {z : Zone} {v w : WallTime} {t u : Instant} {n : Nat}

/-- No change sets the clocks back by more than `n` minutes. -/
def SetsBackAtMost (z : Zone) (n : Nat) : Prop :=
  (z.first :: z.changes.map OffsetChange.offset).IsChain fun a b => a ≤ b + (n : Int) * 60

instance (z : Zone) (n : Nat) : Decidable (z.SetsBackAtMost n) := by
  unfold SetsBackAtMost; infer_instance

/-- All changes are at the beginning of a minute. -/
def ChangesOnMinutes (z : Zone) : Prop := ∀ c ∈ z.changes, c.start % 60 = 0

instance (z : Zone) : Decidable z.ChangesOnMinutes := by
  unfold ChangesOnMinutes; infer_instance

/-! ## Over the list of changes -/

/-- What a clock shows at a change it does not show less of ever after. -/
theorem start_le_later {c : OffsetChange} {cs : List OffsetChange}
    (hap : (c :: cs).Pairwise fun a b => a.start + ((n * 60 : Nat) : Int) < b.start)
    (hback : (c.offset :: cs.map OffsetChange.offset).IsChain fun a b => a ≤ b + (n : Int) * 60)
    {s : Int} (hs : c.start ≤ s) : c.start + c.offset ≤ s + offsetFrom c.offset cs s := by
  induction cs generalizing c with
  | nil =>
    simp only [offsetFrom]
    omega
  | cons e es ih =>
    rw [List.map_cons, List.isChain_cons_cons] at hback
    obtain ⟨hc, hap'⟩ := List.pairwise_cons.1 hap
    have hfar := hc e List.mem_cons_self
    have hstep := hback.1
    unfold offsetFrom
    split
    · omega
    · have hlater := ih hap' hback.2 (by omega)
      omega

theorem offsetFrom_le_later {f : Int} {cs : List OffsetChange}
    (hap : cs.Pairwise fun a b => a.start + ((n * 60 : Nat) : Int) < b.start)
    (hback : (f :: cs.map OffsetChange.offset).IsChain fun a b => a ≤ b + (n : Int) * 60)
    {r s : Int} (hrs : r ≤ s) : r + offsetFrom f cs r ≤ s + offsetFrom f cs s + n * 60 := by
  induction cs generalizing f with
  | nil =>
    simp only [offsetFrom]
    omega
  | cons c cs ih =>
    rw [List.map_cons, List.isChain_cons_cons] at hback
    have hstep := hback.1
    by_cases hr : r < c.start
    · rw [offsetFrom_cons_of_lt hr]
      by_cases hs : s < c.start
      · rw [offsetFrom_cons_of_lt hs]
        omega
      · have hlater := start_le_later hap hback.2 (Int.not_lt.1 hs)
        rw [offsetFrom_cons_of_le (Int.not_lt.1 hs)]
        omega
    · rw [offsetFrom_cons_of_le (Int.not_lt.1 hr), offsetFrom_cons_of_le (by omega)]
      exact ih (List.pairwise_cons.1 hap).2 hback.2

/-- The clock comes past a wall time either by showing it or by a change that skips it, and what a
change skips is not shown later. -/
theorem exists_earlier_offsetFrom {f : Int} {cs : List OffsetChange}
    (hap : cs.Pairwise fun a b => a.start + ((n * 60 : Nat) : Int) < b.start)
    (hback : (f :: cs.map OffsetChange.offset).IsChain fun a b => a ≤ b + (n : Int) * 60)
    {s v : Int} (hv : v ≤ s + offsetFrom f cs s) (hshown : ∃ r, r + offsetFrom f cs r = v) :
    ∃ r ≤ s, r + offsetFrom f cs r = v := by
  induction cs generalizing f with
  | nil =>
    obtain ⟨r, hr⟩ := hshown
    simp only [offsetFrom] at hv hr ⊢
    exact ⟨r, by omega, hr⟩
  | cons c cs ih =>
    rw [List.map_cons, List.isChain_cons_cons] at hback
    by_cases hfirst : v - f < c.start
    · refine ⟨v - f, ?_, by rw [offsetFrom_cons_of_lt hfirst]; omega⟩
      by_cases hs : s < c.start
      · rw [offsetFrom_cons_of_lt hs] at hv
        omega
      · omega
    · have hs : c.start ≤ s := by
        by_contra hlt
        rw [offsetFrom_cons_of_lt (Int.not_le.1 hlt)] at hv
        omega
      obtain ⟨r, hr⟩ := hshown
      have hcr : c.start ≤ r := by
        by_contra hlt
        rw [offsetFrom_cons_of_lt (Int.not_le.1 hlt)] at hr
        omega
      rw [offsetFrom_cons_of_le hs] at hv
      rw [offsetFrom_cons_of_le hcr] at hr
      obtain ⟨q, hqs, hq⟩ := ih (List.pairwise_cons.1 hap).2 hback.2 hv ⟨r, hr⟩
      have hcq : c.start ≤ q := by
        by_contra hlt
        have hsame : offsetFrom c.offset cs q = c.offset := offsetFrom_of_lt fun e he => by
          have hfar := (List.pairwise_cons.1 hap).1 e he
          omega
        have hlater := start_le_later hap hback.2 hcr
        omega
      exact ⟨q, hqs, by rwa [offsetFrom_cons_of_le hcq]⟩

/-! ## Instants and wall times -/

theorem wallTime_le_later (hap : z.Apart (n * 60)) (hback : z.SetsBackAtMost n) (h : t ≤ u) :
    (z.wallTime t).seconds ≤ (z.wallTime u).seconds + n * 60 := by
  refine offsetFrom_le_later hap hback ?_
  rw [Moment.le_def] at h
  omega

theorem exists_earlier (hap : z.Apart (n * 60)) (hback : z.SetsBackAtMost n) (hv : z.Occurs v)
    (hle : v ≤ z.wallTime u) : ∃ t ≤ u, z.Shows t v := by
  rw [Moment.le_def] at hle
  obtain ⟨s, hs, hshows⟩ := exists_earlier_offsetFrom hap hback (s := u.seconds)
    (by simp only [wallTime, Moment.shift, offsetAt] at hle; omega) (occurs_iff.1 hv)
  refine ⟨⟨s, v.nanos⟩, ?_, ?_⟩
  · rw [Moment.le_def]
    by_cases hlt : s < u.seconds
    · exact .inl hlt
    · obtain rfl : s = u.seconds := by omega
      simp only [wallTime, Moment.shift, offsetAt] at hle
      exact .inr ⟨rfl, show v.nanos ≤ u.nanos by omega⟩
  · simp only [Shows, wallTime, Moment.shift, offsetAt, hshows]

theorem earliest?_le (hap : z.Apart (n * 60)) (hback : z.SetsBackAtMost n)
    (ht : z.earliest? v = some t) (hle : v ≤ z.wallTime u) : t ≤ u := by
  obtain ⟨⟨hoccurs, -⟩, -, hearliest⟩ := (earliest?_eq_some_iff hap.ordered).1 ht
  obtain ⟨r, hru, hr⟩ := exists_earlier hap hback hoccurs hle
  exact Moment.le_trans (hearliest r hr) hru

/-- Wall times that are far enough apart for a skipped stretch between them are found in order. -/
theorem localize_le_localize (hap : z.Apart (n * 60)) (hback : z.SetsBackAtMost n)
    (hv : v.nanos < 1000000000) (ht : z.localize v = .ok t) (hu : z.localize w = .ok u)
    (hw : w.nanos < 1000000000) (hle : v.minutesOn longestGap ≤ w) : t ≤ u := by
  obtain ⟨k, hk, -, hfirst⟩ := exists_minute_of_localize ht
  have hbefore : v.minutesOn k ≤ w := Moment.le_trans (Moment.le_minutesOn hv hk) hle
  exact earliest?_le hap hback hfirst
    (Moment.le_trans hbefore (le_wallTime_of_localize hap.ordered hw hu))

/-- Within a minute the clock goes on as it is. -/
theorem offsetAt_minute (hchanges : z.ChangesOnMinutes) (s : Int) :
    z.offsetAt (s - s % 60) = z.offsetAt s :=
  offsetFrom_congr fun c hc => by
    have hminute := hchanges c hc
    omega

/-- The instant of a wall time that the clock is past is past, also if the wall time is skipped. -/
theorem localize_le (hz : z.WithinDay) (hminutes : z.OnMinutes) (hchanges : z.ChangesOnMinutes)
    (hap : z.Apart (n * 60)) (hback : z.SetsBackAtMost n) (hlow : Moment.firstDay + 2 ≤ u.day)
    (hhigh : u.day + 2 ≤ Moment.lastDay) (hw : w.nanos = 0) (hwhole : w.seconds % 60 = 0)
    (hle : w ≤ z.wallTime u) (h : z.localize w = .ok t) : t ≤ u := by
  obtain ⟨k, -, hpassed, ht⟩ := exists_minute_of_localize h
  have hnanos : w.nanos < 1000000000 := by omega
  -- the last whole minute, at which the clock shows one that is no earlier than `w`
  let r : Instant := ⟨u.seconds - u.seconds % 60, 0⟩
  have hru : r ≤ u := by
    rw [Moment.le_def]
    simp only [r]
    omega
  have hoffset := hminutes.offsetAt u.seconds
  have hseconds : (z.wallTime r).seconds = u.seconds - u.seconds % 60 + z.offsetAt u.seconds := by
    simp only [r, wallTime, Moment.shift, offsetAt_minute hchanges]
  have hbefore : w.seconds ≤ u.seconds + z.offsetAt u.seconds := by
    rw [Moment.le_def] at hle
    simp only [wallTime, Moment.shift] at hle
    omega
  obtain ⟨m, hm⟩ : ∃ m, z.wallTime r = w.minutesOn m := by
    refine ⟨(((z.wallTime r).seconds - w.seconds) / 60).toNat, ?_⟩
    rw [Moment.minutesOn_eq_shift hnanos]
    have hzero : (z.wallTime r).nanos = 0 := rfl
    generalize z.wallTime r = v at *
    obtain ⟨vs, vn⟩ := v
    simp only [Moment.shift, Moment.mk.injEq] at *
    omega
  have hplaced : z.Placed (w.minutesOn m) := by
    refine ⟨⟨r, hm⟩, fun q hq => ?_⟩
    have hrq := congrArg Moment.seconds ((hm.trans hq.symm : z.wallTime r = z.wallTime q))
    have hr := hz.offsetAt u.seconds
    have hq := hz.offsetAt q.seconds
    rw [hseconds] at hrq
    simp only [wallTime, Moment.shift] at hrq
    unfold Moment.InRange Moment.IsDay Moment.day at *
    omega
  have hkm : k ≤ m := by
    by_contra hlt
    exact (earliest?_eq_none_iff hap.ordered).1 (hpassed m (by omega)).1 hplaced
  refine Moment.le_trans (earliest?_le hap hback ht ?_) hru
  rw [hm]
  exact Moment.le_minutesOn hnanos hkm

end Zone
end Outreach
