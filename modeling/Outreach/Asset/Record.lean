import Outreach.Asset.Category
import Outreach.Asset.Flow
import Outreach.Asset.Set
import Outreach.Schedule
import Outreach.Time.Zone

/-!
# Outreach.Asset.Record

The assets of an org, one type for each category, and what each is found by.

* `Part.Item`, `Part.Source`, `Part.Content` — the items of a category, what a loader lists of
  it, and what a snapshot holds of it. `Part.elim` says something of all categories at once.
* `OrgData` — everything that a store knows about one org.
-/

namespace Outreach

inductive RedactionPolicy where
  | none
  | urns
deriving DecidableEq, Repr

inductive DateFormat where
  | dayMonthYear
  | monthDayYear
  | yearMonthDay
deriving DecidableEq, Repr

structure OrgEnvironment where
  timezone : Zone := Zone.utc
  defaultLanguage : Option String := none
  allowedLanguages : List String := []
  defaultCountry : Option String := none
  dateFormat : DateFormat := .dayMonthYear
  redactionPolicy : RedactionPolicy := .none
deriving DecidableEq

structure Channel where
  id : Int
  uuid : Uuid
  name : String
  address : String
  schemes : List String
  country : Option String
  isTest : Bool
deriving DecidableEq

inductive FieldType where
  | text
  | number
  | datetime
  | state
  | district
  | ward
deriving DecidableEq, Repr

inductive FieldScope where
  | user
  | system
deriving DecidableEq, Repr

structure Field where
  id : Int
  uuid : Uuid
  key : String
  name : String
  valueType : FieldType
  scope : FieldScope
deriving DecidableEq

structure Group where
  id : Int
  uuid : Uuid
  name : String
  query : Option String
deriving DecidableEq

structure Classifier where
  id : Int
  uuid : Uuid
  name : String
  kind : String
  intents : List String
deriving DecidableEq

structure Label where
  id : Int
  uuid : Uuid
  name : String
deriving DecidableEq

structure Ticketer where
  id : Int
  uuid : Uuid
  name : String
  kind : String
deriving DecidableEq

structure Topic where
  id : Int
  uuid : Uuid
  name : String
deriving DecidableEq

structure Resthook where
  id : Int
  slug : String
  subscribers : List String
deriving DecidableEq

/-- The text of a template in one language, for one channel. -/
structure TemplateText where
  channelUuid : Uuid
  locale : String
  content : String
  variableCount : Nat
deriving DecidableEq

structure Template where
  id : Int
  uuid : Uuid
  name : String
  texts : List TemplateText
deriving DecidableEq

inductive TriggerKind where
  | keyword (words : List String)
  | catchAll
  | newConversation
  | missedCall
  | schedule (s : Schedule)
deriving DecidableEq

structure Trigger where
  id : Int
  kind : TriggerKind
  flow : Int
  channel : Option Int
  includeGroups : List Int
  excludeGroups : List Int
deriving DecidableEq

structure Global where
  id : Int
  key : String
  name : String
  value : String
deriving DecidableEq

structure Location where
  id : Int
  osmId : String
  name : String
  level : Nat
  parent : Option Int
  aliases : List String
deriving DecidableEq

structure User where
  id : Int
  email : String
  name : String
  role : String
deriving DecidableEq

instance : Asset Channel where
  id := Channel.id
  uuid? c := some c.uuid
  key? c := some c.address

instance : Asset Field where
  id := Field.id
  uuid? f := some f.uuid
  key? f := some f.key

instance : Asset Group where
  id := Group.id
  uuid? g := some g.uuid

instance : Asset Classifier where
  id := Classifier.id
  uuid? c := some c.uuid

instance : Asset Campaign where
  id := Campaign.id
  uuid? c := some c.uuid

instance : Asset Label where
  id := Label.id
  uuid? l := some l.uuid

instance : Asset Ticketer where
  id := Ticketer.id
  uuid? t := some t.uuid

instance : Asset Topic where
  id := Topic.id
  uuid? t := some t.uuid

instance : Asset Resthook where
  id := Resthook.id
  key? r := some r.slug

instance : Asset Template where
  id := Template.id
  uuid? t := some t.uuid

instance : Asset Trigger where
  id := Trigger.id

instance : Asset Global where
  id := Global.id
  key? g := some g.key

instance : Asset Location where
  id := Location.id
  key? l := some l.osmId

instance : Asset User where
  id := User.id
  key? u := some u.email

namespace Part

/-- An item of a category; the environment is its own only item. -/
abbrev Item : Part → Type
  | environment => OrgEnvironment
  | channels => Channel
  | fields => Field
  | groups => Group
  | classifiers => Classifier
  | campaigns => Campaign
  | labels => Label
  | ticketers => Ticketer
  | topics => Topic
  | resthooks => Resthook
  | templates => Template
  | triggers => Trigger
  | globals => Global
  | locations => Location
  | users => User

/-- What a loader lists of a category. -/
abbrev Source : Part → Type
  | environment => OrgEnvironment
  | p => List p.Item

/-- What a snapshot holds of a category. -/
abbrev Content : Part → Type
  | environment => OrgEnvironment
  | p => AssetSet p.Item

/-- One thing for the environment and one for all sets of assets give one for each category. It
may depend on what is listed, on what a snapshot holds, and on the items. -/
def elim {M : Type → Type → Type → Type}
    (environment : M OrgEnvironment OrgEnvironment OrgEnvironment)
    (set : (α : Type) → [Asset α] → M (List α) (AssetSet α) α) :
    (p : Part) → M p.Source p.Content p.Item
  | .environment => environment
  | channels => set Channel
  | fields => set Field
  | groups => set Group
  | classifiers => set Classifier
  | campaigns => set Campaign
  | labels => set Label
  | ticketers => set Ticketer
  | topics => set Topic
  | resthooks => set Resthook
  | templates => set Template
  | triggers => set Trigger
  | globals => set Global
  | locations => set Location
  | users => set User

/-- The set of what was listed; the environment as it is. -/
def index (p : Part) : p.Source → p.Content :=
  elim (M := fun S C _ => S → C) id (fun _ _ as => AssetSet.ofList as) p

/-- Nothing listed, and the default environment. -/
def nothing (p : Part) : p.Source :=
  elim (M := fun S _ _ => S) {} (fun _ _ => []) p

/-- The environment is found whatever is looked for. -/
def look (p : Part) : Lookup → p.Content → Found p.Item :=
  elim (M := fun _ C I => Lookup → C → Found I)
    (fun _ e => .item (some e)) (fun _ _ => AssetSet.look) p

/-- The set with more items; the environment stays. -/
def extend (p : Part) : p.Content → p.Source → p.Content :=
  elim (M := fun S C _ => C → S → C) (fun e _ => e) (fun _ _ s extra => s.withExtra extra) p

/-- Which items of the extended set are those of the set. -/
def shared (p : Part) : p.Content → p.Source → List Bool :=
  elim (M := fun S C _ => C → S → List Bool) (fun _ _ => []) (fun _ _ => AssetSet.shared) p

/-- The numbers of the items, each under the name of its type. -/
def debug (p : Part) : p.Content → String :=
  elim (M := fun _ C _ => C → String) (fun _ => "") (fun _ _ => AssetSet.debug p.idName) p

end Part

structure OrgData where
  source : (p : Part) → p.Source := Part.nothing
  flows : List Flow := []

namespace OrgData

/-- The data with one category replaced. -/
def set (d : OrgData) (p : Part) (s : p.Source) : OrgData :=
  { d with source := fun q => if h : p = q then h ▸ s else d.source q }

theorem source_set_self (d : OrgData) (p : Part) (s : p.Source) : (d.set p s).source p = s := by
  simp [set]

theorem source_set_of_ne (d : OrgData) {p q : Part} (s : p.Source) (h : p ≠ q) :
    (d.set p s).source q = d.source q := by
  simp [set, h]

end OrgData
end Outreach
