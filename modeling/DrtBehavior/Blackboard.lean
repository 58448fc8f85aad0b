import DrtBehavior.Messages

/-!
# Blackboard and ports

The blackboard of BehaviorTree.CPP as the modelled behaviours use it: a port is bound in the XML
to an entry or to a literal text, `getInput` reads it and may fail, `setOutput` writes the entry.

* `Value` — what an entry holds; `Conversions` — `BT::convertFromString` for texts.
* `getInput`, `setOutput`, `required` — a failed read leaves its target as it was, or is turned
  into the `BT::RuntimeError` of a required port.
-/

set_option autoImplicit false

namespace DrtBehavior

/-- The value of an entry. -/
inductive Value (K J : Type) where
  | string (s : StdString)
  | double (x : K)
  | doubles (xs : List K)
  | transformStamped (t : TransformStamped K)
  | poseStamped (p : PoseStamped K)
  | robotTrajectory (trajectory : J)

abbrev Blackboard (K J : Type) := StdString → Option (Value K J)

/-- An attribute `port="{key}"` or `port="text"`. -/
inductive PortBinding where
  | entry (key : StdString)
  | literal (text : StdString)
  deriving DecidableEq, Repr

/-- The attributes of a node that are ports. -/
abbrev NodeXml := List (StdString × PortBinding)

/-- `convertFromString<double>` and `convertFromString<std::vector<double>>`. -/
structure Conversions (K : Type) where
  toDouble : StdString → Option K
  toDoubles : StdString → Option (List K)

namespace Value

variable {K J : Type}

def asString : Value K J → Option StdString
  | .string s => some s
  | _ => none

def asDouble (c : Conversions K) : Value K J → Option K
  | .double x => some x
  | .string s => c.toDouble s
  | _ => none

def asDoubles (c : Conversions K) : Value K J → Option (List K)
  | .doubles xs => some xs
  | .string s => c.toDoubles s
  | _ => none

def asTransformStamped : Value K J → Option (TransformStamped K)
  | .transformStamped t => some t
  | _ => none

def asPoseStamped : Value K J → Option (PoseStamped K)
  | .poseStamped p => some p
  | _ => none

def asRobotTrajectory : Value K J → Option J
  | .robotTrajectory trajectory => some trajectory
  | _ => none

theorem asTransformStamped_eq {value : Value K J} {t : TransformStamped K}
    (h : value.asTransformStamped = some t) : value = .transformStamped t := by
  cases value <;> cases h
  rfl

theorem asPoseStamped_eq {value : Value K J} {p : PoseStamped K}
    (h : value.asPoseStamped = some p) : value = .poseStamped p := by
  cases value <;> cases h
  rfl

end Value

variable {K J T : Type}

/-- `getInput<T>(port)`; a port without an attribute has its default from `providedPorts`. -/
def getInput (as : Value K J → Option T) (defaults : List (StdString × Value K J)) (xml : NodeXml)
    (port : StdString) (blackboard : Blackboard K J) : Option T :=
  match xml.lookup port with
  | some (.entry key) => (blackboard key).bind as
  | some (.literal text) => as (.string text)
  | none => (defaults.lookup port).bind as

/-- `setOutput(port, value)`; a port that is not bound to an entry is not written. -/
def setOutput (xml : NodeXml) (port : StdString) (value : Value K J) (blackboard : Blackboard K J) :
    Blackboard K J :=
  match xml.lookup port with
  | some (.entry key) => fun k => if k = key then some value else blackboard k
  | _ => blackboard

/-- `if (!getInput(port, value)) throw BT::RuntimeError(message)`. -/
def required (message : StdString) (input : Option T) : Except Fault T :=
  match input with
  | some value => .ok value
  | none => .error (.runtimeError message)

theorem required_eq_ok {message : StdString} {input : Option T} {value : T} :
    required message input = .ok value ↔ input = some value := by
  cases input with
  | none => simp [required]
  | some v => simp [required]

theorem getInput_transformStamped {defaults : List (StdString × Value K J)} {xml : NodeXml}
    {port key : StdString} {blackboard : Blackboard K J} {t : TransformStamped K}
    (hentry : xml.lookup port = some (.entry key))
    (h : getInput Value.asTransformStamped defaults xml port blackboard = some t) :
    blackboard key = some (.transformStamped t) := by
  unfold getInput at h
  rw [hentry] at h
  obtain ⟨value, hvalue, has⟩ := Option.bind_eq_some_iff.mp h
  obtain rfl := Value.asTransformStamped_eq has
  exact hvalue

/-- What is written on a port is read from the port that is bound to the same entry. -/
theorem getInput_setOutput {as : Value K J → Option T} {defaults : List (StdString × Value K J)}
    {xml xml' : NodeXml} {port port' key : StdString} (value : Value K J)
    (blackboard : Blackboard K J) (h : xml.lookup port = some (.entry key))
    (h' : xml'.lookup port' = some (.entry key)) :
    getInput as defaults xml port (setOutput xml' port' value blackboard) = as value := by
  unfold getInput setOutput
  simp [h, h']

end DrtBehavior
