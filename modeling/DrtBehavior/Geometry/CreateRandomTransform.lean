import DrtBehavior.Geometry.Eigen

/-!
# CreateRandomTransform

`CreateRandomTransform` of `geometry_behavior` makes a transform with a random translation in the
frame `world`.

* `res`, `tick` — the translation from a draw of `Eigen::Vector3d::Random`, which is in the cube
  from -1 to 1, and the message.
* `tick_cases` — the outcome for every outcome of the reads.
* `fills_box_iff` — the draws whose translation is in the box of the ports.
-/

set_option autoImplicit false

section

namespace DrtBehavior

namespace CreateRandomTransform

variable {K J : Type} [Field K]

/-- What the reads of `tick` give; `none` is a failed read. -/
structure Ports (K : Type) where
  transformName : Option StdString
  center : Option (List K)
  boxSide : Option (List K)

/-- The defaults of `providedPorts`. -/
def defaults : List (StdString × Value K J) :=
  [(bytes "center", .doubles [0, 0, 0]), (bytes "box_side", .doubles [1, 1, 1])]

def readPorts (c : Conversions K) (xml : NodeXml) (blackboard : Blackboard K J) : Ports K where
  transformName := getInput Value.asString defaults xml (bytes "transform_name") blackboard
  center := getInput (Value.asDoubles c) defaults xml (bytes "center") blackboard
  boxSide := getInput (Value.asDoubles c) defaults xml (bytes "box_side") blackboard

/-- `res`. -/
def res (center boxSide random : Fin 3 → K) : Fin 3 → K := fun i =>
  -1 * (boxSide i / 2) + random i * boxSide i + center i

/-- `t_stamped`. -/
def tStamped [LinearOrder K] [Elementary K] (transformName : StdString) (res : Fin 3 → K) :
    TransformStamped K :=
  { eigenToTransform { (1 : Isometry3d K) with translation := res } with
    header := { Header.empty with frameId := bytes "world" }
    childFrameId := transformName }

@[simp] theorem tStamped_translation [LinearOrder K] [Elementary K] (transformName : StdString)
    (res : Fin 3 → K) : (tStamped transformName res).transform.translation.toEigen = res :=
  Vector3.toEigen_ofEigen res

/-- `tick`: the status and the value set on port `transform`.  Nobody looks at the outcome of the
    reads of `center` and `box_side`, whose vectors are empty before. -/
def tick [LinearOrder K] [Elementary K] (random : Fin 3 → K) (ports : Ports K) :
    Except Fault (NodeStatus × TransformStamped K) := do
  let transformName ← required (bytes "Could not access blackboard input [transform_name]")
    ports.transformName
  let center ← vector3d (ports.center.getD [])
  let boxSide ← vector3d (ports.boxSide.getD [])
  return (.success, tStamped transformName (res center boxSide random))

/-- Where the XML binds neither, the box has sides of length 1 around the origin. -/
theorem readPorts_defaults (c : Conversions K) {xml : NodeXml} (blackboard : Blackboard K J)
    (hcenter : xml.lookup (bytes "center") = none)
    (hside : xml.lookup (bytes "box_side") = none) :
    (readPorts c xml blackboard).center = some (coefficients 0) ∧
      (readPorts c xml blackboard).boxSide = some (coefficients 1) := by
  unfold readPorts getInput
  rw [hcenter, hside]
  exact ⟨rfl, rfl⟩

/-- Both vectors have the three elements that are looked at. -/
def VectorsUsable (ports : Ports K) : Prop :=
  3 ≤ (ports.center.getD []).length ∧ 3 ≤ (ports.boxSide.getD []).length

/-- **Everything `tick` can do**, for every draw and every outcome of the reads: throw for a missing
    name, read past the end of a vector, or make the transform. -/
theorem tick_cases [LinearOrder K] [Elementary K] (random : Fin 3 → K) (ports : Ports K) :
    (ports.transformName = none ∧ ∃ what, tick random ports = .error (.runtimeError what)) ∨
    (ports.transformName.isSome ∧ ¬ VectorsUsable ports ∧
      tick random ports = .error .outOfBounds) ∨
    (VectorsUsable ports ∧ ∃ transformName center boxSide,
      ports.transformName = some transformName ∧
      vector3d (ports.center.getD []) = .ok center ∧
      vector3d (ports.boxSide.getD []) = .ok boxSide ∧
      tick random ports = .ok (.success, tStamped transformName (res center boxSide random))) := by
  unfold tick VectorsUsable
  cases ports.transformName with
  | none => exact .inl ⟨rfl, _, rfl⟩
  | some name =>
    rcases vector3d_cases (ports.center.getD []) with ⟨hc, center, hcenter⟩ | ⟨hc, hcenter⟩
    · rcases vector3d_cases (ports.boxSide.getD []) with ⟨hb, boxSide, hbox⟩ | ⟨hb, hbox⟩
      · refine .inr (.inr ⟨⟨hc, hb⟩, name, center, boxSide, rfl, hcenter, hbox, ?_⟩)
        rw [hcenter, hbox]
        rfl
      · refine .inr (.inl ⟨rfl, fun h => absurd h.2 (by omega), ?_⟩)
        rw [hcenter, hbox]
        rfl
    · refine .inr (.inl ⟨rfl, fun h => absurd h.1 (by omega), ?_⟩)
      rw [hcenter]
      rfl

/-! ## The box -/

/-- A draw of `Eigen::Vector3d::Random`. -/
def IsDraw [LinearOrder K] (random : Fin 3 → K) : Prop := ∀ i, -1 ≤ random i ∧ random i ≤ 1

/-- The box with this center and these sides. -/
def InBox [LinearOrder K] (center boxSide p : Fin 3 → K) : Prop :=
  ∀ i, |p i - center i| ≤ boxSide i / 2

theorem tick_coefficients [LinearOrder K] [Elementary K] (random : Fin 3 → K)
    (transformName : StdString) (center boxSide : Fin 3 → K) :
    tick random ⟨some transformName, some (coefficients center), some (coefficients boxSide)⟩ =
      .ok (.success, tStamped transformName (res center boxSide random)) := by
  unfold tick
  simp only [Option.getD_some, vector3d_coefficients]
  rfl

section

variable [LinearOrder K] [IsStrictOrderedRing K]

/-- On an axis, the offset of half a side fits draws from 0 to 1. -/
theorem abs_offset_le_iff {b r : K} (hb : 0 ≤ b) (hr : r ≤ 1) :
    |-1 * (b / 2) + r * b| ≤ b / 2 ↔ b = 0 ∨ 0 ≤ r := by
  rw [abs_le]
  constructor
  · rintro ⟨hlow, -⟩
    rcases hb.eq_or_lt with h0 | hpos
    · exact .inl h0.symm
    · have hprod : 0 ≤ r * b := by linarith
      exact .inr (nonneg_of_mul_nonneg_left hprod hpos)
  · rintro (rfl | h0)
    · simp
    · have hlow := mul_nonneg h0 hb
      have hhigh := mul_le_mul_of_nonneg_right hr hb
      constructor <;> linarith

theorem inBox_res_iff (center : Fin 3 → K) {boxSide random : Fin 3 → K} (hside : ∀ i, 0 ≤ boxSide i)
    (hdraw : IsDraw random) :
    InBox center boxSide (res center boxSide random) ↔ ∀ i, boxSide i = 0 ∨ 0 ≤ random i := by
  unfold InBox res
  refine forall_congr' fun i => ?_
  rw [add_sub_cancel_right, abs_offset_le_iff (hside i) (hdraw i).2]

theorem exists_axis_draw {b d : K} (hd : |d| ≤ b / 2) :
    ∃ r, (-1 ≤ r ∧ r ≤ 1) ∧ -1 * (b / 2) + r * b = d := by
  obtain ⟨hlow, hhigh⟩ := abs_le.mp hd
  have hb : 0 ≤ b := by linarith
  rcases hb.eq_or_lt with rfl | hpos
  · refine ⟨0, ⟨by linarith, by linarith⟩, by linarith⟩
  · have hr0 : 0 ≤ (d + b / 2) / b := div_nonneg (by linarith) hb
    have hr1 : (d + b / 2) / b ≤ 1 := (div_le_one hpos).mpr (by linarith)
    refine ⟨(d + b / 2) / b, ⟨by linarith, hr1⟩, ?_⟩
    rw [div_mul_cancel₀ _ hpos.ne']
    ring

/-- Every point of the box is reached. -/
theorem exists_draw {center boxSide p : Fin 3 → K} (hp : InBox center boxSide p) :
    ∃ random, IsDraw random ∧ res center boxSide random = p := by
  choose random hdraw haxis using fun i => exists_axis_draw (hp i)
  refine ⟨random, hdraw, funext fun i => ?_⟩
  unfold res
  rw [haxis i, sub_add_cancel]

/-- **Exactly which draws stay in the box.**  For every center and every box with non-negative
    sides: the translation of a draw is in the box if and only if the draw is not negative on any
    axis along which the box extends; and every point of the box is the translation of some
    draw. -/
theorem fills_box_iff [Elementary K] (transformName : StdString) (center boxSide : Fin 3 → K)
    (hside : ∀ i, 0 ≤ boxSide i) :
    let ports := ⟨some transformName, some (coefficients center), some (coefficients boxSide)⟩
    (∀ random, IsDraw random →
      ((∃ output, tick random ports = .ok (.success, output) ∧
          InBox center boxSide output.transform.translation.toEigen) ↔
        ∀ i, boxSide i = 0 ∨ 0 ≤ random i)) ∧
    ∀ p, InBox center boxSide p → ∃ random, IsDraw random ∧
      ∃ output, tick random ports = .ok (.success, output) ∧
        output.transform.translation.toEigen = p := by
  intro ports
  constructor
  · intro random hdraw
    have htick : tick random ports = _ :=
      tick_coefficients random transformName center boxSide
    rw [← inBox_res_iff center hside hdraw, htick]
    constructor
    · rintro ⟨output, houtput, hbox⟩
      cases houtput
      rwa [tStamped_translation] at hbox
    · intro hbox
      refine ⟨_, rfl, ?_⟩
      rwa [tStamped_translation]
  · intro p hp
    obtain ⟨random, hdraw, hres⟩ := exists_draw hp
    refine ⟨random, hdraw, _, tick_coefficients random transformName center boxSide, ?_⟩
    rw [tStamped_translation, hres]

end

/-- The box around the drop-off point of the shipped tree can be filled. -/
theorem fills_box_iff_dropoff :
    ∃ random : Fin 3 → ℝ, IsDraw random ∧ ∃ output,
      tick random ⟨some (bytes "bag_dropoff"), some [-1.5675, 0.753, 1.3],
        some [0.40, 0.25, 0.125]⟩ = .ok (.success, output) ∧
      output.transform.translation.toEigen = ![-1.5675, 0.753, 1.3] :=
  (fills_box_iff (bytes "bag_dropoff") ![-1.5675, 0.753, 1.3] ![0.40, 0.25, 0.125]
    (by intro i; fin_cases i <;> norm_num)).2 ![-1.5675, 0.753, 1.3]
    (by intro i; fin_cases i <;> norm_num)

/-- The lowest draw is a whole side below the box. -/
theorem dropoff_left :
    let center : Fin 3 → ℝ := ![-1.5675, 0.753, 1.3]
    let boxSide : Fin 3 → ℝ := ![0.40, 0.25, 0.125]
    ∃ output, tick (fun _ => -1) ⟨some (bytes "bag_dropoff"), some [-1.5675, 0.753, 1.3],
        some [0.40, 0.25, 0.125]⟩ = .ok (.success, output) ∧
      IsDraw (fun _ => -1 : Fin 3 → ℝ) ∧ output.transform.translation.z = 1.1125 ∧
      ¬ InBox center boxSide output.transform.translation.toEigen := by
  intro center boxSide
  have hdraw : IsDraw (fun _ => -1 : Fin 3 → ℝ) := fun _ => ⟨by norm_num, by norm_num⟩
  have hside : ∀ i, 0 ≤ boxSide i := by
    intro i
    fin_cases i <;> norm_num [boxSide]
  refine ⟨_, tick_coefficients (fun _ => -1) (bytes "bag_dropoff") center boxSide, hdraw, ?_, ?_⟩
  · show res center boxSide (fun _ => -1) 2 = 1.1125
    simp only [res, center, boxSide, Matrix.cons_val]
    norm_num
  · intro h
    rw [tStamped_translation] at h
    rcases (inBox_res_iff center hside hdraw).mp h 2 with h0 | h0
    · simp only [boxSide, Matrix.cons_val] at h0
      norm_num at h0
    · norm_num at h0

end CreateRandomTransform

end DrtBehavior

end
