/-!
# Outreach.Asset.Category

The categories of an org's assets, in the order in which they are built. All but the flows are
loaded as a whole; flows are loaded one by one when they are asked for. A `Mask` is a set of
categories to load anew, one bit each.

`Mask.reloads_of` says that the mask of a category reloads that category and no other.
-/

namespace Outreach

/-- A category that is loaded as a whole. -/
inductive Part where
  | environment
  | channels
  | fields
  | groups
  | classifiers
  | campaigns
  | labels
  | ticketers
  | topics
  | resthooks
  | templates
  | triggers
  | globals
  | locations
  | users
deriving DecidableEq, Repr

inductive Category where
  | part (p : Part)
  | flows
deriving DecidableEq, Repr

namespace Part

/-- The order of building. -/
def all : List Part :=
  [environment, channels, fields, groups, classifiers, campaigns, labels, ticketers, topics,
   resthooks, templates, triggers, globals, locations, users]

def name : Part → String
  | environment => "environment"
  | channels => "channels"
  | fields => "fields"
  | groups => "groups"
  | classifiers => "classifiers"
  | campaigns => "campaigns"
  | labels => "labels"
  | ticketers => "ticketers"
  | topics => "topics"
  | resthooks => "resthooks"
  | templates => "templates"
  | triggers => "triggers"
  | globals => "globals"
  | locations => "locations"
  | users => "users"

/-- The name of the type of a category's numbers. -/
def idName : Part → String
  | environment => "EnvironmentId"
  | channels => "ChannelId"
  | fields => "FieldId"
  | groups => "GroupId"
  | classifiers => "ClassifierId"
  | campaigns => "CampaignId"
  | labels => "LabelId"
  | ticketers => "TicketerId"
  | topics => "TopicId"
  | resthooks => "ResthookId"
  | templates => "TemplateId"
  | triggers => "TriggerId"
  | globals => "GlobalId"
  | locations => "LocationId"
  | users => "UserId"

theorem mem_all (p : Part) : p ∈ all := by
  cases p <;> decide

theorem nodup_all : all.Nodup := by decide

end Part

namespace Category

/-- The order of building, with the flows last. -/
def all : List Category := Part.all.map part ++ [flows]

def name : Category → String
  | part p => p.name
  | flows => "flows"

def ofName? (s : String) : Option Category :=
  all.find? fun c => c.name == s

/-- The number of the category's bit. -/
def index : Category → Nat
  | part p => Part.all.idxOf p
  | flows => 15

end Category

abbrev Mask := BitVec 16

namespace Mask

def empty : Mask := 0

def full : Mask := BitVec.allOnes 16

def of (c : Category) : Mask := BitVec.twoPow 16 c.index

/-- The known bits of a number. -/
def ofBits (n : Nat) : Mask := BitVec.ofNat 16 n

def ofCategories (cs : List Category) : Mask :=
  cs.foldl (fun m c => m ||| of c) empty

def reloads (m : Mask) (c : Category) : Bool := m.getLsbD c.index

/-- The categories of a mask, in the order of building. -/
def categories (m : Mask) : List Category :=
  Category.all.filter m.reloads

theorem index_inj {c d : Category} (h : c.index = d.index) : c = d := by
  cases c with
  | part p => cases d with
    | part q => revert h; cases p <;> cases q <;> decide
    | flows => revert h; cases p <;> decide
  | flows => cases d with
    | part q => revert h; cases q <;> decide
    | flows => rfl

theorem index_lt (c : Category) : c.index < 16 := by
  cases c with
  | part p => cases p <;> decide
  | flows => decide

theorem reloads_of (c d : Category) : (of c).reloads d = true ↔ c = d := by
  have hc := index_lt c
  simp only [reloads, of, BitVec.getLsbD_twoPow]
  constructor
  · intro h
    simp only [Bool.and_eq_true, decide_eq_true_eq] at h
    exact index_inj h.2
  · rintro rfl
    simp [hc]

theorem reloads_or (m n : Mask) (c : Category) :
    (m ||| n).reloads c = (m.reloads c || n.reloads c) :=
  BitVec.getLsbD_or

end Mask
end Outreach
