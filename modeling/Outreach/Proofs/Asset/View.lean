import Mathlib.Data.List.Flatten
import Outreach.Asset.View

/-!
# Outreach.Proofs.Asset.View

What scheduling finds in the campaigns of an org.

* `View.eventsOf_ofCampaigns`, `View.eventsRelativeTo_ofCampaigns`, `View.event?_ofCampaigns` —
  each lookup, as a search through the list of all events.
* `View.mem_eventsOf` — the events for a group are those at home there.
-/

namespace Outreach

/-- The events of some campaigns, in the order of their definition. -/
def allEvents (cs : List Campaign) : List Event := cs.flatMap Campaign.events

namespace View

/-! ## One event more -/

theorem campaignsOf_addEvents (es : List Event) (v : View) (g : GroupId) :
    (es.foldl addEvent v).campaignsOf g = v.campaignsOf g := by
  induction es generalizing v with
  | nil => rfl
  | cons e es ih => exact ih (v.addEvent e)

theorem eventsRelativeTo_addEvent (v : View) (e : Event) (key : String) :
    (v.addEvent e).eventsRelativeTo key =
      v.eventsRelativeTo key ++ [e].filter fun e => e.spec.relativeTo.key == key := by
  simp only [eventsRelativeTo, addEvent, Index.find?_insert]
  by_cases h : e.spec.relativeTo.key = key
  · subst h
    simp
  · simp [h]

theorem eventsRelativeTo_addEvents (es : List Event) (v : View) (key : String) :
    (es.foldl addEvent v).eventsRelativeTo key =
      v.eventsRelativeTo key ++ es.filter fun e => e.spec.relativeTo.key == key := by
  induction es generalizing v with
  | nil => simp
  | cons e es ih =>
    rw [List.foldl_cons, ih, eventsRelativeTo_addEvent, List.append_assoc, ← List.filter_append]
    rfl

theorem event?_addEvents (es : List Event) (v : View) (id : EventId) :
    (es.foldl addEvent v).event? id =
      (es.reverse.find? fun e => e.id == id).or (v.event? id) := by
  induction es generalizing v with
  | nil => simp
  | cons e es ih =>
    have hone : (v.addEvent e).event? id =
        ([e].find? fun e => e.id == id).or (v.event? id) := by
      simp only [event?, addEvent, Index.find?_insert]
      by_cases h : e.id = id
      · simp [h]
      · simp [h]
    rw [List.foldl_cons, ih, hone, List.reverse_cons, List.find?_append, Option.or_assoc]

/-! ## All campaigns -/

theorem campaignsOf_addCampaigns (cs : List Campaign) (v : View) (g : GroupId) :
    (cs.foldl addCampaign v).campaignsOf g =
      v.campaignsOf g ++ cs.filter fun c => c.group == g := by
  induction cs generalizing v with
  | nil => simp
  | cons c cs ih =>
    have hone : (v.addCampaign c).campaignsOf g =
        v.campaignsOf g ++ [c].filter fun c => c.group == g := by
      simp only [addCampaign, campaignsOf_addEvents]
      simp only [campaignsOf, Index.find?_insert]
      by_cases h : c.group = g
      · subst h
        simp
      · simp [h]
    rw [List.foldl_cons, ih, hone, List.append_assoc, ← List.filter_append]
    rfl

theorem eventsOf_ofCampaigns (cs : List Campaign) (g : GroupId) :
    (ofCampaigns cs).eventsOf g = allEvents (cs.filter fun c => c.group == g) := by
  have hnone : ({} : View).campaignsOf g = [] := rfl
  rw [eventsOf, ofCampaigns, campaignsOf_addCampaigns, hnone, List.nil_append]
  rfl

theorem eventsRelativeTo_ofCampaigns (cs : List Campaign) (key : String) :
    (ofCampaigns cs).eventsRelativeTo key =
      (allEvents cs).filter fun e => e.spec.relativeTo.key == key := by
  have hall : ∀ (cs : List Campaign) (v : View), (cs.foldl addCampaign v).eventsRelativeTo key =
      v.eventsRelativeTo key ++ (allEvents cs).filter fun e => e.spec.relativeTo.key == key := by
    intro cs
    induction cs with
    | nil => simp [allEvents]
    | cons c cs ih =>
      intro v
      have hone : (v.addCampaign c).eventsRelativeTo key =
          v.eventsRelativeTo key ++ c.events.filter fun e => e.spec.relativeTo.key == key :=
        eventsRelativeTo_addEvents _ _ _
      rw [List.foldl_cons, ih, hone, List.append_assoc, ← List.filter_append]
      rfl
  exact hall cs {}

/-- Of two events with one number the later counts. -/
theorem event?_ofCampaigns (cs : List Campaign) (id : EventId) :
    (ofCampaigns cs).event? id = (allEvents cs).reverse.find? fun e => e.id == id := by
  have hall : ∀ (cs : List Campaign) (v : View), (cs.foldl addCampaign v).event? id =
      ((allEvents cs).reverse.find? fun e => e.id == id).or (v.event? id) := by
    intro cs
    induction cs with
    | nil => simp [allEvents]
    | cons c cs ih =>
      intro v
      have hone : (v.addCampaign c).event? id =
          (c.events.reverse.find? fun e => e.id == id).or (v.event? id) :=
        event?_addEvents _ _ _
      rw [List.foldl_cons, ih, hone, ← Option.or_assoc, ← List.find?_append,
        ← List.reverse_append]
      rfl
  have hnone : ({} : View).event? id = none := rfl
  rw [ofCampaigns, hall, hnone, Option.or_none]

theorem mem_eventsOf {cs : List Campaign} {g : GroupId} {e : Event} :
    e ∈ (ofCampaigns cs).eventsOf g ↔
      e ∈ allEvents cs ∧ ∃ home, e.home = some home ∧ home.group = g := by
  rw [eventsOf_ofCampaigns]
  simp only [allEvents, List.mem_flatMap, List.mem_filter, beq_iff_eq]
  have hhome {c : Campaign} (he : e ∈ c.events) : e.home = some ⟨c.id, c.group⟩ := by
    obtain ⟨s, -, rfl⟩ := List.mem_map.1 he
    rfl
  constructor
  · rintro ⟨c, ⟨hc, rfl⟩, he⟩
    exact ⟨⟨c, hc, he⟩, _, hhome he, rfl⟩
  · rintro ⟨⟨c, hc, he⟩, home, hh, rfl⟩
    rw [hhome he] at hh
    cases hh
    exact ⟨c, ⟨hc, rfl⟩, he⟩

theorem sublist_eventsOf (cs : List Campaign) (g : GroupId) :
    ((ofCampaigns cs).eventsOf g).Sublist (allEvents cs) := by
  rw [eventsOf_ofCampaigns]
  exact List.filter_sublist.flatMap _

theorem sublist_eventsRelativeTo (cs : List Campaign) (key : String) :
    ((ofCampaigns cs).eventsRelativeTo key).Sublist (allEvents cs) := by
  rw [eventsRelativeTo_ofCampaigns]
  exact List.filter_sublist

theorem mem_of_event? {cs : List Campaign} {id : EventId} {e : Event}
    (h : (ofCampaigns cs).event? id = some e) : e ∈ allEvents cs ∧ e.id = id := by
  rw [event?_ofCampaigns] at h
  have hid := List.find?_some h
  exact ⟨List.mem_reverse.1 (List.mem_of_find?_eq_some h), beq_iff_eq.1 hid⟩

end View
end Outreach
