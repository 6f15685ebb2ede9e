import StackMaps.Proofs.Flow.DepthAgreement

/-!
# Reruns of analyses

The analyses of a session share their notes and do not learn from each other. Whatever
has been called before, an analysis finds wiped notes on the blocks of the body, as many
as there are on a new session, and so it finds the same and leaves the same behind.
-/

namespace StackMaps

namespace Session

/-- A question to a session, answered by one of the analyses. -/
inductive Inquiry
  | maxes (startLocals : Nat)
  | frames (hierarchy : Hierarchy) (thisClass : BinaryName) (startLocals : List Slot)

/-- The answers to a question. -/
def Inquiry.Answer : Inquiry → Type
  | .maxes _ => Maxes
  | .frames .. => Framing

/-- Answer a question, on the session that the analysis leaves behind. -/
def inquire (session : Session) : (inquiry : Inquiry) → inquiry.Answer × Session
  | .maxes startLocals => session.computeMaxes startLocals
  | .frames hierarchy thisClass startLocals =>
      session.computeFrames hierarchy thisClass startLocals

/-- A call on a session. -/
inductive Call
  | setThreshold (threshold : Nat)
  | inquire (inquiry : Inquiry)

/-- The threshold that a call sets. -/
def Call.threshold? : Call → Option Nat
  | .setThreshold threshold => some threshold
  | .inquire _ => none

/-- The threshold behind some calls on a new session: the last one that is set. -/
def thresholdBehind (calls : List Call) : Nat :=
  (calls.reverse.findSome? Call.threshold?).getD defaultThreshold

/-- The session behind a call. -/
def after (session : Session) : Call → Session
  | .setThreshold threshold => session.withThreshold threshold
  | .inquire inquiry => (session.inquire inquiry).2

/-- The session behind some calls. -/
def afterAll (session : Session) (calls : List Call) : Session :=
  calls.foldl after session

theorem thresholdBehind_concat (calls : List Call) (call : Call) :
    thresholdBehind (calls ++ [call]) = call.threshold?.getD (thresholdBehind calls) := by
  rw [thresholdBehind, List.reverse_concat, List.findSome?_cons]
  cases call with
  | setThreshold threshold => rfl
  | inquire inquiry => rfl

variable {session : Session} {body : Body} {threshold : Nat}

/-- A session on a body that has kept everything but the contents of its notes. -/
structure IsOn (session : Session) (body : Body) (threshold : Nat) : Prop where
  body_eq : session.body = body
  graph_eq : session.graph = FlowGraph.ofBody body
  threshold_eq : session.threshold = threshold
  size_notes : session.notes.size = (FlowGraph.ofBody body).blocks.size

theorem isOn_ofBody (body : Body) : (ofBody body).IsOn body defaultThreshold :=
  ⟨rfl, rfl, rfl, size_notes_ofBody body⟩

theorem IsOn.withThreshold (isOn : session.IsOn body threshold) (other : Nat) :
    (session.withThreshold other).IsOn body other :=
  ⟨isOn.body_eq, isOn.graph_eq, rfl, isOn.size_notes⟩

/-- An analysis wipes what it finds, so that only the number of blocks is left of the
notes of earlier ones. -/
theorem IsOn.inquire_eq (isOn : session.IsOn body threshold) (inquiry : Inquiry) :
    session.inquire inquiry = ((ofBody body).withThreshold threshold).inquire inquiry := by
  have wiped : session.notes.map Notes.wipe = (ofBody body).notes.map Notes.wipe := by
    rw [FlowGraph.map_wipe, FlowGraph.map_wipe, size_notes_ofBody, isOn.size_notes]
  cases inquiry with
  | maxes startLocals =>
      simp only [inquire, computeMaxes, wiped, isOn.body_eq, isOn.graph_eq, isOn.threshold_eq]
      rfl
  | frames hierarchy thisClass startLocals =>
      simp only [inquire, computeFrames, wiped, isOn.body_eq, isOn.graph_eq, isOn.threshold_eq]
      rfl

/-- An analysis leaves notes on all blocks of the body. -/
theorem size_notes_inquire (body : Body) (threshold : Nat) (inquiry : Inquiry) :
    (((ofBody body).withThreshold threshold).inquire inquiry).2.notes.size =
      (FlowGraph.ofBody body).blocks.size := by
  cases inquiry with
  | maxes startLocals =>
      change ((ofBody body).computeMaxes startLocals).2.notes.size = _
      by_cases empty : body.instructions = []
      · rw [computeMaxes_of_empty empty, size_notes_ofBody]
      · rw [(computeMaxes_eq empty startLocals).2,
          Analysis.size_reaches (FlowGraph.reaches_countRun startLocals)]
        simp [FlowGraph.opening]
  | frames hierarchy thisClass startLocals =>
      simp only [inquire]
      by_cases empty : body.instructions = []
      · rw [computeFrames_of_empty threshold hierarchy thisClass startLocals empty]
        exact size_notes_ofBody body
      · rw [notes_computeFrames threshold hierarchy thisClass startLocals empty,
          Analysis.size_reaches (FlowGraph.reaches_inferRun _ _ _)]
        simp [FlowGraph.opening]

theorem isOn_inquire (body : Body) (threshold : Nat) (inquiry : Inquiry) :
    (((ofBody body).withThreshold threshold).inquire inquiry).2.IsOn body threshold := by
  have size_eq := size_notes_inquire body threshold inquiry
  cases inquiry with
  | maxes startLocals => exact ⟨rfl, rfl, rfl, size_eq⟩
  | frames hierarchy thisClass startLocals => exact ⟨rfl, rfl, rfl, size_eq⟩

theorem IsOn.after (isOn : session.IsOn body threshold) (call : Call) :
    (session.after call).IsOn body (call.threshold?.getD threshold) := by
  cases call with
  | setThreshold other => exact isOn.withThreshold other
  | inquire inquiry =>
      rw [Session.after, isOn.inquire_eq inquiry]
      exact isOn_inquire body threshold inquiry

theorem isOn_afterAll (body : Body) (calls : List Call) :
    ((ofBody body).afterAll calls).IsOn body (thresholdBehind calls) := by
  induction calls using List.reverseRecOn with
  | nil => exact isOn_ofBody body
  | append_singleton calls call hypothesis =>
      rw [thresholdBehind_concat, afterAll, List.foldl_append]
      exact hypothesis.after call

/-- Whatever has been called before, an analysis returns what it returns as the first
one on a new session with the same threshold, and it leaves the same session behind,
with the same notes on every block. No call changes the flow graph. -/
theorem inquire_afterAll (body : Body) (calls : List Call) :
    (∀ inquiry, ((ofBody body).afterAll calls).inquire inquiry =
        ((ofBody body).withThreshold (thresholdBehind calls)).inquire inquiry) ∧
      ((ofBody body).afterAll calls).graph = FlowGraph.ofBody body :=
  have isOn := isOn_afterAll body calls
  ⟨isOn.inquire_eq, isOn.graph_eq⟩

end Session

end StackMaps
