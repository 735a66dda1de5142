/-!
# Outreach.Chunks

Cutting a list into consecutive pieces of at most `n` items. `flatten_chunksOf` says that nothing
is lost or moved, `length_of_mem_chunksOf` that no piece is empty or too long, and
`chunksOf_flatten_of_append` that the first pieces are those of the items in them.
-/

namespace Outreach

/-- Pieces of `n` items, the last one possibly shorter; zero counts as one. -/
def chunksOf {α : Type} (n : Nat) (l : List α) : List (List α) :=
  if _h : l = [] then []
  else l.take (max n 1) :: chunksOf n (l.drop (max n 1))
termination_by l.length
decreasing_by
  have : 0 < l.length := List.length_pos_iff.2 ‹_›
  rw [List.length_drop]; omega

theorem chunksOf_nil {α : Type} (n : Nat) : chunksOf n ([] : List α) = [] := by
  rw [chunksOf]; simp

theorem chunksOf_of_ne_nil {α : Type} {l : List α} (n : Nat) (h : l ≠ []) :
    chunksOf n l = l.take (max n 1) :: chunksOf n (l.drop (max n 1)) := by
  rw [chunksOf]; simp [h]

theorem flatten_chunksOf {α : Type} (n : Nat) (l : List α) : (chunksOf n l).flatten = l := by
  induction hk : l.length using Nat.strongRecOn generalizing l with
  | _ k ih =>
    by_cases h : l = []
    · subst h; simp [chunksOf_nil]
    · have hl : 0 < l.length := List.length_pos_iff.2 h
      rw [chunksOf_of_ne_nil n h, List.flatten_cons,
        ih _ (by rw [List.length_drop]; omega) _ rfl, List.take_append_drop]

theorem length_of_mem_chunksOf {α : Type} (n : Nat) (l c : List α) (hc : c ∈ chunksOf n l) :
    c ≠ [] ∧ c.length ≤ max n 1 := by
  induction hk : l.length using Nat.strongRecOn generalizing l with
  | _ k ih =>
    by_cases h : l = []
    · subst h; simp [chunksOf_nil] at hc
    · have hl : 0 < l.length := List.length_pos_iff.2 h
      rw [chunksOf_of_ne_nil n h, List.mem_cons] at hc
      rcases hc with rfl | hc
      · refine ⟨?_, List.length_take_le _ _⟩
        intro h0
        have := congrArg List.length h0
        rw [List.length_take, List.length_nil] at this
        omega
      · exact ih _ (by rw [List.length_drop]; omega) _ hc rfl

theorem chunksOf_eq_singleton {α : Type} {n : Nat} {l : List α} (h : l ≠ [])
    (hlen : l.length ≤ max n 1) : chunksOf n l = [l] := by
  rw [chunksOf_of_ne_nil n h, List.take_of_length_le hlen, List.drop_of_length_le hlen,
    chunksOf_nil]

theorem chunksOf_of_mem {α : Type} {n : Nat} {l c : List α} (hc : c ∈ chunksOf n l) :
    chunksOf n c = [c] := by
  obtain ⟨hne, hlen⟩ := length_of_mem_chunksOf n l c hc
  exact chunksOf_eq_singleton hne hlen

theorem chunksOf_flatten_of_append {α : Type} {n : Nat} {l : List α} {done rest : List (List α)}
    (h : chunksOf n l = done ++ rest) : chunksOf n done.flatten = done := by
  induction done generalizing l with
  | nil => exact chunksOf_nil n
  | cons c done ih =>
    have hl : l ≠ [] := by
      rintro rfl
      rw [chunksOf_nil] at h
      cases h
    have hc : c ∈ chunksOf n l := h ▸ List.mem_append_left _ List.mem_cons_self
    rw [chunksOf_of_ne_nil n hl, List.cons_append] at h
    obtain ⟨htake, hdrop⟩ := List.cons.inj h
    by_cases hdone : done = []
    · rw [hdone, List.flatten_cons, List.flatten_nil, List.append_nil, chunksOf_of_mem hc]
    · -- more follows, so the first piece is a full one
      have hmore : l.drop (max n 1) ≠ [] := by
        intro hnil
        rw [hnil, chunksOf_nil] at hdrop
        exact hdone (List.append_eq_nil_iff.1 hdrop.symm).1
      have hfull : c.length = max n 1 := by
        rw [← htake, List.length_take, Nat.min_eq_left]
        exact Nat.le_of_lt (Nat.lt_of_not_le fun hle => hmore (List.drop_of_length_le hle))
      have hne : c ++ done.flatten ≠ [] :=
        List.append_ne_nil_of_left_ne_nil (length_of_mem_chunksOf n l c hc).1 _
      rw [List.flatten_cons, chunksOf_of_ne_nil n hne, List.take_left' hfull,
        List.drop_left' hfull, ih hdrop]

end Outreach
