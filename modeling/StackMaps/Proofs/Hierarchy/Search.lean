import StackMaps.Hierarchy.Basic
import Mathlib.Logic.Relation

/-!
# The search up the supertypes

The search finds a class exactly if a path leads up to it. A class is marked when it
begins to wait, not when it is visited, so the proof keeps track of three kinds of
classes: what follows a visited one is marked, and what is marked has been visited or
still waits.
-/

namespace StackMaps

section Paths

variable {α : Type} {next : α → List α} {goal : α}

/-- A path from one element to another along `next`. -/
abbrev Leads (next : α → List α) : α → α → Prop :=
  Relation.ReflTransGen fun current following => following ∈ next current

/-- What every step keeps holds at the end of a path. -/
theorem Leads.preserves
    (Holds : α → Prop)
    (keeps : ∀ current, Holds current → ∀ above ∈ next current, Holds above)
    {start : α}
    (holds : Holds start)
    (leads : Leads next start goal) :
    Holds goal := by
  induction leads with
  | refl => exact holds
  | tail _ isAbove hypothesis => exact keeps _ hypothesis _ isAbove

/-- A path that ends inside follows `others` alone, if all other steps lead outside and no
path comes back from there. -/
theorem Leads.confine
    {others : α → List α}
    {Outside : α → Prop}
    (keeps : ∀ current, Outside current → ∀ above ∈ next current, Outside above)
    (split : ∀ current, ∀ above ∈ next current, above ∈ others current ∨ Outside above)
    {start : α}
    (inside : ¬Outside goal)
    (leads : Leads next start goal) :
    Leads others start goal := by
  induction leads using Relation.ReflTransGen.head_induction_on with
  | refl => exact .refl
  | head isAbove leads hypothesis =>
      rcases split _ _ isAbove with follows | outside
      · exact .head follows hypothesis
      · exact absurd (Leads.preserves Outside keeps outside leads) inside

end Paths

namespace Search

variable {α : Type} [DecidableEq α] {search : Search α} {elements : List α}

theorem mem_unmarked_push_iff {element other : α} :
    other ∈ (search.push element).unmarked ↔ other ∈ search.unmarked ∧ other ≠ element := by
  unfold push
  split
  next => simp
  next isMarked =>
      refine ⟨fun present => ⟨present, fun same => isMarked (same ▸ present)⟩, And.left⟩

theorem mem_pending_push_iff {element other : α} :
    other ∈ (search.push element).pending ↔
      other ∈ search.pending ∨ other ∈ search.unmarked ∧ other = element := by
  unfold push
  split <;> grind

/-- What waits is no longer unmarked. -/
theorem mem_unmarked_foldl_push_iff {other : α} :
    other ∈ (elements.foldl push search).unmarked ↔
      other ∈ search.unmarked ∧ other ∉ elements := by
  induction elements generalizing search with
  | nil => simp
  | cons element rest hypothesis =>
      rw [List.foldl_cons, hypothesis, mem_unmarked_push_iff, List.mem_cons, not_or, and_assoc]

/-- What has been unmarked waits. -/
theorem mem_pending_foldl_push_iff {other : α} :
    other ∈ (elements.foldl push search).pending ↔
      other ∈ search.pending ∨ other ∈ search.unmarked ∧ other ∈ elements := by
  induction elements generalizing search with
  | nil => simp
  | cons element rest hypothesis =>
      rw [List.foldl_cons, hypothesis, mem_unmarked_push_iff, mem_pending_push_iff, List.mem_cons]
      by_cases same : other = element <;> simp [same]

end Search

section Search

variable {α : Type} [DecidableEq α] {next : α → List α} {goal : α}

/-- What is found can be reached from a pending element. -/
theorem exists_leads_of_searchUp
    {search : Search α}
    (found : searchUp next goal search = true) :
    ∃ start ∈ search.pending, Leads next start goal := by
  fun_induction searchUp next goal search with
  | case1 => simp at found
  | case2 unmarked rest => exact ⟨goal, List.mem_cons_self, .refl⟩
  | case3 unmarked current rest distinct hypothesis =>
      obtain ⟨start, present, leads⟩ := hypothesis found
      rcases Search.mem_pending_foldl_push_iff.mp present with later | ⟨_, above⟩
      · exact ⟨start, List.mem_cons_of_mem _ later, leads⟩
      · exact ⟨current, List.mem_cons_self, .head above leads⟩

/-- The visited elements are none that is looked for, what follows them is marked, and
everything that is marked and follows some element has been visited or waits. -/
structure Explored
    (next : α → List α)
    (goal : α)
    (search : Search α)
    (visited : α → Prop) : Prop where
  ne_goal : ∀ current, visited current → current ≠ goal
  marked : ∀ current, visited current → ∀ above ∈ next current, above ∉ search.unmarked
  covered : ∀ current, ∀ above ∈ next current,
    above ∈ search.unmarked ∨ visited above ∨ above ∈ search.pending

/-- The first pending element has been visited. -/
theorem Explored.visit
    {unmarked rest : List α}
    {current : α}
    {visited : α → Prop}
    (explored : Explored next goal ⟨unmarked, current :: rest⟩ visited)
    (distinct : current ≠ goal) :
    Explored next goal ((next current).foldl Search.push ⟨unmarked, rest⟩)
      fun other => other = current ∨ visited other := by
  refine ⟨?_, ?_, ?_⟩
  · rintro other (rfl | before)
    · exact distinct
    · exact explored.ne_goal other before
  · rintro other isVisited above isAbove stays
    obtain ⟨isUnmarked, absent⟩ := Search.mem_unmarked_foldl_push_iff.mp stays
    rcases isVisited with rfl | before
    · exact absent isAbove
    · exact explored.marked other before above isAbove isUnmarked
  · intro other above isAbove
    rw [Search.mem_unmarked_foldl_push_iff, Search.mem_pending_foldl_push_iff]
    rcases explored.covered other above isAbove with isUnmarked | before | waits
    · by_cases follows : above ∈ next current
      · exact Or.inr (Or.inr (Or.inr ⟨isUnmarked, follows⟩))
      · exact Or.inl ⟨isUnmarked, follows⟩
    · exact Or.inr (Or.inl (Or.inr before))
    · rcases List.mem_cons.mp waits with same | later
      · exact Or.inr (Or.inl (Or.inl same))
      · exact Or.inr (Or.inr (Or.inl later))

omit [DecidableEq α] in
/-- When nothing waits any more, everything to which a path leads from a visited element has
been visited. -/
theorem Explored.visited_of_leads
    {unmarked : List α}
    {visited : α → Prop}
    (explored : Explored next goal ⟨unmarked, []⟩ visited)
    {start other : α}
    (isVisited : visited start)
    (leads : Leads next start other) :
    visited other := by
  refine leads.preserves visited (fun current before above isAbove => ?_) isVisited
  rcases explored.covered current above isAbove with isUnmarked | done | waits
  · exact absurd isUnmarked (explored.marked current before above isAbove)
  · exact done
  · exact absurd waits List.not_mem_nil

/-- If nothing is found no visited or pending element leads to the goal. -/
theorem not_leads_of_searchUp
    {search : Search α}
    {visited : α → Prop}
    (explored : Explored next goal search visited)
    (missed : searchUp next goal search = false)
    {start : α}
    (known : visited start ∨ start ∈ search.pending) :
    ¬Leads next start goal := by
  fun_induction searchUp next goal search generalizing visited with
  | case1 unmarked =>
      have isVisited : visited start := by simpa using known
      exact fun leads => explored.ne_goal goal (explored.visited_of_leads isVisited leads) rfl
  | case2 unmarked rest => simp at missed
  | case3 unmarked current rest distinct hypothesis =>
      refine hypothesis (explored.visit distinct) missed ?_
      rcases known with before | waits
      · exact Or.inl (Or.inr before)
      · rcases List.mem_cons.mp waits with same | later
        · exact Or.inl (Or.inl same)
        · exact Or.inr (Search.mem_pending_foldl_push_iff.mpr (Or.inl later))

/-- A search from one element finds the goal exactly if a path leads there, provided that
everything that follows some element can be marked. -/
theorem searchUp_start_iff
    {elements : List α}
    {start : α}
    (listed : ∀ current, ∀ above ∈ next current, above ∈ elements) :
    searchUp next goal (.start elements start) = true ↔ Leads next start goal := by
  constructor
  · intro found
    obtain ⟨first, present, leads⟩ := exists_leads_of_searchUp found
    obtain rfl := List.mem_singleton.mp present
    exact leads
  · intro leads
    have explored : Explored next goal (.start elements start) fun _ => False := by
      refine ⟨fun _ => False.elim, fun _ => False.elim, fun current above isAbove => ?_⟩
      by_cases same : above = start
      · exact Or.inr (Or.inr (List.mem_singleton.mpr same))
      · exact Or.inl (by simpa [Search.start, same] using listed current above isAbove)
    cases missed : searchUp next goal (.start elements start) with
    | true => rfl
    | false =>
        exact absurd leads
          (not_leads_of_searchUp explored missed (Or.inr (List.mem_singleton.mpr rfl)))

end Search

end StackMaps
