import Outreach.Time.Moment

/-!
# Outreach.Time.Zone

A time zone as a table: the offset that holds from the beginning, and the changes, in order,
each with the instant from which its offset holds. Offsets are seconds east of UTC.

* `Zone.offsetAt`, `Zone.wallTime` — what a clock in the zone shows at an instant.
* `Zone.Shows` — the relation between instants and wall times, which has no function either
  way round: a wall time can be skipped or occur twice.
* `Zone.instantsAt` — all instants with a given wall time, earliest first.
* `Zone.localize` — the instant of a wall time, or of the first minute after it that occurs.

`mem_instantsAt` says that `instantsAt` lists what `Shows` relates, if the changes are in order.
-/

namespace Outreach

structure OffsetChange where
  start : Int
  offset : Int
deriving DecidableEq, Repr

structure Zone where
  name : String
  first : Int
  changes : List OffsetChange
deriving DecidableEq, Repr

namespace Zone

def utc : Zone := ⟨"UTC", 0, []⟩

/-- The offset at second `t`, where `offset` holds before the changes. -/
def offsetFrom (offset : Int) : List OffsetChange → Int → Int
  | [], _ => offset
  | c :: cs, t => if t < c.start then offset else offsetFrom c.offset cs t

def offsetAt (z : Zone) (t : Int) : Int :=
  offsetFrom z.first z.changes t

/-- What a clock in the zone shows at instant `t`. -/
def wallTime (z : Zone) (t : Instant) : WallTime :=
  t.shift (z.offsetAt t.seconds)

/-- The wall time, if its date is representable. -/
def wallTime? (z : Zone) (t : Instant) : Option WallTime :=
  if (z.wallTime t).InRange then some (z.wallTime t) else none

/-- At instant `t` a clock in the zone shows `w`. -/
def Shows (z : Zone) (t : Instant) (w : WallTime) : Prop :=
  z.wallTime t = w

/-- The seconds at which a clock shows second `w`, from second `start` on if there is one. -/
def secondsFrom (start : Option Int) (offset : Int) : List OffsetChange → Int → List Int
  | [], w => if (∀ s ∈ start, s ≤ w - offset) then [w - offset] else []
  | c :: cs, w =>
    let rest := secondsFrom (some c.start) c.offset cs w
    if (∀ s ∈ start, s ≤ w - offset) ∧ w - offset < c.start then (w - offset) :: rest else rest

/-- All instants at which a clock in the zone shows `w`, earliest first. -/
def instantsAt (z : Zone) (w : WallTime) : List Instant :=
  (secondsFrom none z.first z.changes w.seconds).map fun s => ⟨s, w.nanos⟩

/-- The earliest instant with wall time `w`, if all such instants are representable. -/
def earliest? (z : Zone) (w : WallTime) : Option Instant :=
  match z.instantsAt w with
  | [] => none
  | t :: ts => if ∀ u ∈ t :: ts, u.InRange then some t else none

/-- The longest skipped stretch that is searched, in minutes. -/
def longestGap : Nat := 120

/-- Tries `n` wall times, a minute apart. -/
def localizeWithin (z : Zone) : Nat → WallTime → Except (Fault Unit) Instant
  | 0, _ => .error (.cause ())
  | n + 1, w =>
    match z.earliest? w with
    | some t => .ok t
    | none =>
      match w.plus? (Span.ofMinutes 1) with
      | none => .error .overflow
      | some w' => localizeWithin z n w'

/-- The earliest instant with wall time `w`; if `w` is skipped, the earliest instant with the
first wall time that occurs, minute by minute, up to `longestGap` minutes after `w`. -/
def localize (z : Zone) (w : WallTime) : Except (Fault Unit) Instant :=
  z.localizeWithin (longestGap + 1) w

/-- The changes are in the order of their instants. -/
def Ordered (z : Zone) : Prop :=
  z.changes.Pairwise fun a b => a.start < b.start

theorem offsetFrom_of_lt {offset t : Int} {cs : List OffsetChange}
    (h : ∀ c ∈ cs, t < c.start) : offsetFrom offset cs t = offset := by
  cases cs with
  | nil => rfl
  | cons c cs => simp [offsetFrom, h c (by simp)]

theorem mem_secondsFrom {b : Option Int} {f w t : Int} {cs : List OffsetChange}
    (ho : cs.Pairwise fun a b => a.start < b.start)
    (hs : ∀ s ∈ b, ∀ c ∈ cs, s < c.start) :
    t ∈ secondsFrom b f cs w ↔ (∀ s ∈ b, s ≤ t) ∧ t + offsetFrom f cs t = w := by
  induction cs generalizing b f with
  | nil =>
    simp only [secondsFrom, offsetFrom]
    split
    · rename_i h
      simp only [List.mem_singleton]
      constructor
      · rintro rfl; exact ⟨h, by omega⟩
      · rintro ⟨_, h2⟩; omega
    · rename_i h
      simp only [List.not_mem_nil, false_iff, not_and]
      intro h1 h2
      apply h
      have : t = w - f := by omega
      subst this; exact h1
  | cons c cs ih =>
    have ho' := List.pairwise_cons.1 ho
    have hrest := ih (b := some c.start) (f := c.offset) ho'.2
      (by intro s hs c' hc'; cases hs; exact ho'.1 c' hc')
    simp only [Option.mem_def, Option.some.injEq, forall_eq'] at hrest
    have key : (t ∈ secondsFrom b f (c :: cs) w) ↔
        (((∀ s ∈ b, s ≤ w - f) ∧ w - f < c.start) ∧ t = w - f) ∨
          (c.start ≤ t ∧ t + offsetFrom c.offset cs t = w) := by
      simp only [secondsFrom]
      split <;> rename_i h
      · simp only [List.mem_cons, hrest]
        constructor
        · rintro (rfl | h')
          · exact .inl ⟨h, rfl⟩
          · exact .inr h'
        · rintro (⟨_, rfl⟩ | h')
          · exact .inl rfl
          · exact .inr h'
      · rw [hrest]
        constructor
        · exact .inr
        · rintro (⟨h', _⟩ | h')
          · exact absurd h' h
          · exact h'
    rw [key]
    by_cases ht : t < c.start
    · simp only [offsetFrom, ht, if_true]
      constructor
      · rintro (⟨⟨h1, h2⟩, rfl⟩ | ⟨h1, _⟩)
        · exact ⟨h1, by omega⟩
        · omega
      · rintro ⟨h1, h2⟩
        have : t = w - f := by omega
        subst this
        exact .inl ⟨⟨h1, ht⟩, rfl⟩
    · simp only [offsetFrom, ht, if_false]
      constructor
      · rintro (⟨⟨_, h2⟩, rfl⟩ | ⟨h1, h2⟩)
        · omega
        · refine ⟨?_, h2⟩
          intro s hs'
          have := hs s hs' c (by simp)
          omega
      · rintro ⟨_, h2⟩
        exact .inr ⟨by omega, h2⟩

/-- The instants listed for a wall time are those at which clocks show it. -/
theorem mem_instantsAt {z : Zone} (ho : z.Ordered) {t : Instant} {w : WallTime} :
    t ∈ z.instantsAt w ↔ z.Shows t w := by
  have h := fun s =>
    mem_secondsFrom (b := none) (f := z.first) (w := w.seconds) (t := s) ho (by simp)
  obtain ⟨s, n⟩ := t
  obtain ⟨ws, wn⟩ := w
  simp only [instantsAt, List.mem_map, Shows, wallTime, Moment.shift, offsetAt, Moment.mk.injEq]
  constructor
  · rintro ⟨a, ha, rfl, rfl⟩
    exact ⟨((h a).1 ha).2, rfl⟩
  · rintro ⟨h1, rfl⟩
    exact ⟨s, (h s).2 ⟨by simp, h1⟩, rfl, rfl⟩

end Zone
end Outreach
