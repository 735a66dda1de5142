import Outreach.Campaign.Event
import Outreach.Index

/-!
# Outreach.Asset.View

Campaigns and their events, indexed for scheduling: campaigns by the group they are for, events
by number and by the date they are relative to. All lists are in the order of the campaigns and,
within one, of the definition of its events; of two events with one number the later counts.
-/

namespace Outreach

structure View where
  byGroup : Index GroupId (List Campaign) := .empty
  byId : Index EventId Event := .empty
  byKey : Index String (List Event) := .empty

namespace View

def campaignsOf (v : View) (g : GroupId) : List Campaign :=
  (v.byGroup.find? g).getD []

def eventsRelativeTo (v : View) (key : String) : List Event :=
  (v.byKey.find? key).getD []

def event? (v : View) (id : EventId) : Option Event :=
  v.byId.find? id

/-- The events of the campaigns on a group. -/
def eventsOf (v : View) (g : GroupId) : List Event :=
  (v.campaignsOf g).flatMap Campaign.events

def addEvent (v : View) (e : Event) : View :=
  let key := e.spec.relativeTo.key
  { v with
    byId := v.byId.insert e.id e
    byKey := v.byKey.insert key (v.eventsRelativeTo key ++ [e]) }

def addCampaign (v : View) (c : Campaign) : View :=
  c.events.foldl addEvent
    { v with byGroup := v.byGroup.insert c.group (v.campaignsOf c.group ++ [c]) }

def ofCampaigns (cs : List Campaign) : View :=
  cs.foldl addCampaign {}

end View
end Outreach
