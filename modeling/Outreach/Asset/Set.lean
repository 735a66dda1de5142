import Outreach.Index
import Outreach.Text.Uuid

/-!
# Outreach.Asset.Set

The items of one category in the order in which they were listed, found by number, by identifier
or by key. An item listed later replaces an earlier one of the same number and takes its place;
identifiers and keys are entered as they come, those of replaced items included.

* `AssetSet.ofList` — the set of a list of items.
* `AssetSet.withExtra` — a set with more items.
-/

namespace Outreach

/-- What an item of a category is found by: always a number, and in some categories an
identifier or a key. -/
class Asset (α : Type) where
  id : α → Int
  uuid? : α → Option Uuid := fun _ => none
  key? : α → Option String := fun _ => none

/-- What can be asked of a set. -/
inductive Lookup where
  | byId (n : Int)
  | byUuid (u : Uuid)
  | byKey (k : String)
  | size
  | all
deriving DecidableEq

inductive Found (α : Type) where
  | item (a : Option α)
  | items (as : List α)
  | size (n : Nat)

structure AssetSet (α : Type) where
  byId : Index Int α := .empty
  byUuid : Index Uuid Int := .empty
  byKey : Index String Int := .empty

namespace AssetSet

variable {α : Type} [Asset α]

def empty : AssetSet α := {}

instance : Inhabited (AssetSet α) := ⟨empty⟩

def add (s : AssetSet α) (a : α) : AssetSet α :=
  { byId := s.byId.insert (Asset.id a) a
    byUuid :=
      match Asset.uuid? a with
      | some u => s.byUuid.insert u (Asset.id a)
      | none => s.byUuid
    byKey :=
      match Asset.key? a with
      | some k => s.byKey.insert k (Asset.id a)
      | none => s.byKey }

def ofList (as : List α) : AssetSet α :=
  as.foldl add empty

def items (s : AssetSet α) : List α := s.byId.values

def ids (s : AssetSet α) : List Int := s.byId.keys

def size (s : AssetSet α) : Nat := s.byId.size

def get? (s : AssetSet α) (id : Int) : Option α := s.byId.find? id

def getByUuid? (s : AssetSet α) (u : Uuid) : Option α :=
  match s.byUuid.find? u with
  | some id => s.get? id
  | none => none

def getByKey? (s : AssetSet α) (k : String) : Option α :=
  match s.byKey.find? k with
  | some id => s.get? id
  | none => none

/-- The set of the items of `s` followed by `extra`. -/
def withExtra (s : AssetSet α) (extra : List α) : AssetSet α :=
  ofList (s.items ++ extra)

/-- Which items of the set with `extra` are those of `s`. -/
def shared (s : AssetSet α) (extra : List α) : List Bool :=
  (s.withExtra extra).ids.map fun n => s.ids.contains n && !(extra.map Asset.id).contains n

def look (q : Lookup) (s : AssetSet α) : Found α :=
  match q with
  | .byId n => .item (s.get? n)
  | .byUuid u => .item (s.getByUuid? u)
  | .byKey k => .item (s.getByKey? k)
  | .size => .size s.size
  | .all => .items s.items

/-- The numbers of the items, each under the name of its type. -/
def debug (name : String) (s : AssetSet α) : String :=
  "[" ++ ", ".intercalate (s.ids.map fun n => name ++ s!"({n})") ++ "]"

theorem get?_add (s : AssetSet α) (a : α) (n : Int) :
    (s.add a).get? n = if Asset.id a = n then some a else s.get? n :=
  Index.find?_insert _ _ _ _

end AssetSet
end Outreach
