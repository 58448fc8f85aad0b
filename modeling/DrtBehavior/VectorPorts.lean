import DrtBehavior.Geometry.ApplyTransform
import DrtBehavior.Geometry.CreateRandomTransform
import DrtBehavior.Planning.PlanToPose

/-!
# Vectors read past their end

Three nodes read elements of vectors that a user writes.  `ApplyTransform` checks the lengths first;
`CreateRandomTransform` and `PlanToPose` do not.

* `vectors_in_range_iff` — for each node the port contents for which every access is in range, and a
  vector that is too short makes it throw.
* `short_vectors_read` — the two nodes without the check on short vectors.
-/

set_option autoImplicit false

namespace DrtBehavior

variable {K : Type} [Field K]

theorem ApplyTransform.accesses_in_range [LinearOrder K] [Elementary K] (ports : Ports K) :
    ThrowsOr (fun _ => Accepted ports) (tick ports) := by
  rcases tick_cases ports with ⟨_, what, hthrow⟩ | ⟨haccepted, _, _, _, _, _, _, _, hok⟩
  · rw [hthrow]
    exact trivial
  · rw [hok]
    exact haccepted

theorem CreateRandomTransform.accesses_in_range_iff [LinearOrder K] [Elementary K]
    (random : Fin 3 → K) (ports : Ports K) :
    ThrowsOr (fun _ => VectorsUsable ports) (tick random ports) ↔
      (ports.transformName.isSome → VectorsUsable ports) := by
  rcases tick_cases random ports with
    ⟨hname, what, hthrow⟩ | ⟨hname, hshort, hout⟩ | ⟨husable, _, _, _, _, _, _, hok⟩
  · rw [hthrow, hname]
    exact iff_of_true trivial (fun h => (by cases h))
  · rw [hout]
    exact iff_of_false id (fun h => hshort (h hname))
  · rw [hok]
    exact iff_of_true husable (fun _ => husable)

theorem PlanToPose.accesses_in_range_iff (uninitialized : K) (ports : Ports K)
    (request : MotionPlanRequest K) :
    ThrowsOr (fun _ => OrientationUsable ports) (setRequest uninitialized ports request) ↔
      (RequiredRead ports → OrientationUsable ports) := by
  rcases setRequest_cases uninitialized ports request with
    ⟨hmissing, what, hthrow⟩ | ⟨hread, hshort, hout⟩ | ⟨_, husable, _, hok, _⟩
  · rw [hthrow]
    exact iff_of_true trivial (fun h => absurd h hmissing)
  · rw [hout]
    exact iff_of_false id (fun h => hshort (h hread))
  · rw [hok]
    exact iff_of_true husable (fun _ => husable)

/-- **Exactly when no vector is read past its end.**  For every content of the ports, a failed read
    included: `ApplyTransform` throws, or the vectors have the lengths it checks;
    `CreateRandomTransform` and `PlanToPose` throw, or have vectors with the elements they look at,
    if and only if a required port cannot be read or the vectors have these elements anyway. -/
theorem vectors_in_range_iff [LinearOrder K] [Elementary K] :
    (∀ ports : ApplyTransform.Ports K,
      ThrowsOr (fun _ => ApplyTransform.Accepted ports) (ApplyTransform.tick ports)) ∧
    (∀ (random : Fin 3 → K) (ports : CreateRandomTransform.Ports K),
      ThrowsOr (fun _ => CreateRandomTransform.VectorsUsable ports)
          (CreateRandomTransform.tick random ports) ↔
        (ports.transformName.isSome → CreateRandomTransform.VectorsUsable ports)) ∧
    ∀ (uninitialized : K) (ports : PlanToPose.Ports K) (request : MotionPlanRequest K),
      ThrowsOr (fun _ => PlanToPose.OrientationUsable ports)
          (PlanToPose.setRequest uninitialized ports request) ↔
        (PlanToPose.RequiredRead ports → PlanToPose.OrientationUsable ports) :=
  ⟨ApplyTransform.accesses_in_range, CreateRandomTransform.accesses_in_range_iff,
    PlanToPose.accesses_in_range_iff⟩

/-- A center that is not on the blackboard, and an orientation tolerance of two numbers. -/
theorem short_vectors_read :
    let random : CreateRandomTransform.Ports ℝ := ⟨some (bytes "goal"), none, some [1, 1, 1]⟩
    let pose : PoseStamped ℝ := ⟨Header.empty, ⟨⟨1, 2, 3⟩, Quaternion.identity⟩⟩
    let plan : PlanToPose.Ports ℝ := ⟨some (bytes "arm"), some (bytes "tool"), some pose, none,
      some [1, 1], none, none, none, none⟩
    CreateRandomTransform.tick 0 random = .error .outOfBounds ∧
      PlanToPose.setRequest 0 plan MotionPlanRequest.empty = .error .outOfBounds ∧
      ¬ ThrowsOr (fun _ => CreateRandomTransform.VectorsUsable random)
          (CreateRandomTransform.tick 0 random) ∧
      ¬ ThrowsOr (fun _ => PlanToPose.OrientationUsable plan)
          (PlanToPose.setRequest 0 plan MotionPlanRequest.empty) :=
  ⟨rfl, rfl, id, id⟩

end DrtBehavior
