import Outreach.Campaign.Contact
import Outreach.Time.Zone

/-!
# Outreach.Campaign.FireTime

When an event fires. The start is rounded up to a whole minute of the zone's clock. Minutes and
hours add elapsed time; days and weeks move the date and keep the time of day, so that a change
of offset in between does not shift the hour. A delivery hour then replaces the time of day. A
fire that is not after `now` does not take place.

* `EventSpec.fireTime` — the fire of an event that counts from a given start.
* `Event.fireFor` — the fire for a contact, if it is in the group and has the date in question.
-/

namespace Outreach

/-- The first whole minute of the zone's clock at or after `start`. -/
def Zone.roundUp (z : Zone) (start : Instant) : Option Instant :=
  let wall := z.wallTime start
  let excess := Span.ofSeconds (wall.secondOfDay % 60) + wall.nanos
  if excess = 0 then some start
  else
    match start.plus? (-excess) with
    | none => none
    | some t => t.plus? (Span.ofMinutes 1)

namespace EventSpec

/-- The instant of a wall time, as far as the zone has one. -/
def resolve (z : Zone) (wall : WallTime) : Except (Fault CampaignError) Instant :=
  match z.localize wall with
  | .ok t => .ok t
  | .error .overflow => .error .overflow
  | .error (.cause _) => .error (.cause (.unresolvableLocalTime wall z.name))

def elapsed (s : EventSpec) (start : Instant) (d : Span) : Except (Fault CampaignError) Instant :=
  match start.plus? d with
  | none => .error (.cause (.outOfRange s.offset s.unit))
  | some t => .ok t

def calendar (s : EventSpec) (z : Zone) (start : Instant) (days : Int) :
    Except (Fault CampaignError) Instant :=
  match z.wallTime? start with
  | none => .error .overflow
  | some wall =>
    match wall.plus? (Span.ofDays days) with
    | none => .error (.cause (.outOfRange s.offset s.unit))
    | some w => resolve z w

/-- The start, moved by the offset. -/
def moved (s : EventSpec) (z : Zone) (start : Instant) : Except (Fault CampaignError) Instant :=
  match s.unit with
  | .minutes => s.elapsed start (Span.ofMinutes s.offset)
  | .hours => s.elapsed start (Span.ofHours s.offset)
  | .days => s.calendar z start s.offset
  | .weeks => s.calendar z start (s.offset * 7)

/-- The delivery hour, if there is one, on the same day of the zone's calendar. -/
def delivered (s : EventSpec) (z : Zone) (t : Instant) : Except (Fault CampaignError) Instant :=
  match s.deliveryHour with
  | none => .ok t
  | some hour =>
    match z.wallTime? t with
    | none => .error .overflow
    | some wall =>
      if hour < 24 then resolve z (Moment.ofDay wall.day (hour * 3600 : Nat))
      else .error (.cause (.invalidDeliveryHour hour))

/-- The fire of an event that counts from `start`, if it is after `now`. -/
def fireTime (s : EventSpec) (z : Zone) (now start : Instant) :
    Except (Fault CampaignError) (Option Instant) :=
  match z.roundUp start with
  | none => .error .overflow
  | some start =>
    match s.moved z start with
    | .error e => .error e
    | .ok t =>
      match s.delivered z t with
      | .error e => .error e
      | .ok t => .ok (if now < t then some t else none)

end EventSpec

namespace Event

/-- The fire for a contact. There is none if the campaign is gone, the contact is not in its
group, or lacks the date that the event is relative to. -/
def fireFor (e : Event) (z : Zone) (now : Instant) (c : Contact) :
    Except (Fault CampaignError) (Option Instant) :=
  match e.home with
  | none => .ok none
  | some home =>
    if c.inGroup home.group then
      match c.reference? e.spec.relativeTo with
      | none => .ok none
      | some start => e.spec.fireTime z now start
    else .ok none

end Event
end Outreach
