import StackMaps.Proofs.Body.Labels
import StackMaps.Proofs.Frame.Tabling
import Mathlib.Logic.ExistsUnique

/-!
# Frames that fit a body

The frames of a body fit if each of their labels is marked once, those of uninitialized
objects in front of an allocation, and if there is a real instruction between any two of
them. Then they can be put into a table, wherever the instructions lie.
-/

namespace StackMaps
namespace Body

/-- There is an instruction that does something at the position. -/
def IsReal (body : Body) (position : Nat) : Prop :=
  ∃ instruction, body.instructions[position]? = some instruction ∧ instruction.isMark = false

/-- An object is allocated at the position. -/
def Allocates (body : Body) (position : Nat) : Prop :=
  ∃ operand, body.instructions[position]? = some (.type .new operand)

/-- The label is marked at the position. -/
def MarksAt (body : Body) (label : Label) (position : Nat) : Prop :=
  body.instructions[position]? = some (.mark label)

/-- The first real instruction behind a position is the one at the target. -/
structure NextReal (body : Body) (position target : Nat) : Prop where
  less : position < target
  real : body.IsReal target
  first : ∀ between, position < between → between < target → ¬body.IsReal between

/-- The real instructions have ascending offsets, and every label has the offset of the next
one behind it. -/
def LaidOut (body : Body) (offset? : Label → Option UInt16) : Prop :=
  ∃ offsetAt : Nat → UInt16,
    (∀ position other, body.IsReal position → body.IsReal other → position < other →
      offsetAt position < offsetAt other) ∧
    ∀ label position target, body.MarksAt label position → body.NextReal position target →
      offset? label = some (offsetAt target)

/-- The frames fit the instructions. -/
structure FramesFit (body : Body) : Prop where
  /-- All labels in frames are marked once. -/
  placed : ∀ frame ∈ body.frames, ∀ label ∈ frame.1 :: frame.2.origins,
    ∃! position, body.MarksAt label position
  /-- Behind the label of an uninitialized object there is the allocation next. -/
  allocated : ∀ frame ∈ body.frames, ∀ label ∈ frame.2.origins, ∀ position,
    body.MarksAt label position →
    ∃ target, body.NextReal position target ∧ body.Allocates target
  /-- The frames are in the order of the body, with real instructions between them. -/
  separated : body.frames.Pairwise fun earlier later => ∀ position other,
    body.MarksAt earlier.1 position → body.MarksAt later.1 other →
    ∃ between, position < between ∧ between < other ∧ body.IsReal between
  /-- Only their number can keep the frames out of a table. -/
  tabled : ∀ offset?, body.LaidOut offset? →
    ∀ {σ : Type} (index : ClassIndexer σ) (state : σ),
      if 65535 < body.frames.length then
        (StackMapTable.ofFrames body.frames offset? index).run.run state =
          (.error (.tooManyFrames body.frames.length), state)
      else
        ∃ table final,
          (StackMapTable.ofFrames body.frames offset? index).run.run state = (.ok table, final)

variable {body : Body} {label other : Label} {position target : Nat}

theorem Allocates.isReal (allocates : body.Allocates position) : body.IsReal position := by
  obtain ⟨operand, found⟩ := allocates
  exact ⟨_, found, rfl⟩

theorem MarksAt.not_isReal (marked : body.MarksAt label position) : ¬body.IsReal position := by
  rintro ⟨instruction, found, real⟩
  obtain rfl := Option.some.inj (marked.symm.trans found)
  cases real

/-- The label is marked just in front of a real instruction, and nowhere else. -/
structure Fronts (body : Body) (label : Label) (target : Nat) : Prop where
  marked : ∃ before, before + 1 = target ∧ body.MarksAt label before
  real : body.IsReal target
  only : ∀ position, body.MarksAt label position → position + 1 = target

theorem Fronts.existsUnique (fronts : body.Fronts label target) :
    ∃! position, body.MarksAt label position := by
  obtain ⟨before, same, marked⟩ := fronts.marked
  refine ⟨before, marked, fun position markedToo => ?_⟩
  have := fronts.only position markedToo
  omega

theorem Fronts.nextReal
    (fronts : body.Fronts label target)
    (marked : body.MarksAt label position) :
    body.NextReal position target := by
  have same := fronts.only position marked
  refine ⟨by omega, fronts.real, fun between after before => ?_⟩
  omega

theorem Fronts.offset?_eq
    (fronts : body.Fronts label target)
    {offset? : Label → Option UInt16}
    {offsetAt : Nat → UInt16}
    (follows : ∀ label position target, body.MarksAt label position →
      body.NextReal position target → offset? label = some (offsetAt target)) :
    offset? label = some (offsetAt target) := by
  obtain ⟨before, _, marked⟩ := fronts.marked
  exact follows label before target marked (fronts.nextReal marked)

/-- The instruction behind the label of one frame lies in front of the label of the next. -/
theorem Fronts.lt
    (fronts : body.Fronts label position)
    (frontsToo : body.Fronts other target)
    (less : position < target)
    {place : Nat}
    (marked : body.MarksAt other place) :
    position < place := by
  have same := frontsToo.only place marked
  have apart : position ≠ place := by
    rintro rfl
    exact marked.not_isReal fronts.real
  omega

/-- Frames fit if their labels stand in front of ascending instructions, and the labels in
them in front of allocations. -/
theorem framesFit_of_fronts
    (origins : ∀ frame ∈ body.frames, ∀ label ∈ frame.2.origins,
      ∃ target, body.Fronts label target ∧ body.Allocates target)
    (fronted : ∀ frame ∈ body.frames, ∃ target, body.Fronts frame.1 target)
    (ascending : body.frames.Pairwise fun earlier later => ∃ position target,
      body.Fronts earlier.1 position ∧ body.Fronts later.1 target ∧ position < target) :
    body.FramesFit where
  placed := by
    intro frame present label occurs
    rcases List.mem_cons.mp occurs with rfl | inside
    · obtain ⟨target, fronts⟩ := fronted frame present
      exact fronts.existsUnique
    · obtain ⟨target, fronts, _⟩ := origins frame present label inside
      exact fronts.existsUnique
  allocated := by
    intro frame present label occurs position marked
    obtain ⟨target, fronts, allocates⟩ := origins frame present label occurs
    exact ⟨target, fronts.nextReal marked, allocates⟩
  separated := by
    refine ascending.imp ?_
    rintro earlier later ⟨position, target, fronts, frontsToo, less⟩ place other marked markedToo
    have := fronts.only place marked
    exact ⟨position, by omega, fronts.lt frontsToo less markedToo, fronts.real⟩
  tabled := by
    rintro offset? ⟨offsetAt, increases, follows⟩ σ index state
    have isSome : ∀ {label target}, body.Fronts label target → (offset? label).isSome := by
      intro label target fronts
      rw [fronts.offset?_eq follows]
      rfl
    refine StackMapTable.ofFrames_eq (fun frame present => ⟨?_, fun label occurs => ?_⟩) ?_ state
    · obtain ⟨target, fronts⟩ := fronted frame present
      exact isSome fronts
    · obtain ⟨target, fronts, _⟩ := origins frame present label occurs
      exact isSome fronts
    · refine ascending.imp ?_
      rintro earlier later ⟨position, target, fronts, frontsToo, less⟩ offset other found foundToo
      obtain rfl := Option.some.inj ((fronts.offset?_eq follows).symm.trans found)
      obtain rfl := Option.some.inj ((frontsToo.offset?_eq follows).symm.trans foundToo)
      exact increases position target fronts.real frontsToo.real less

end Body
end StackMaps
