import DrtBehavior.Base.Rose
import DrtBehavior.Base.Sequence

/-!
# What the packages use of C++, BehaviorTree.CPP and rclcpp

Types the source takes from its platform, as far as the modelled code reads them.

* `StdString` — a `std::string` is its list of bytes; names, labels and messages are arbitrary.
* `NodeStatus`, `TreeNode`, `Fault` — BehaviorTree.CPP statuses, the tree a factory builds
  (control nodes, decorators, leaves; every node with its 16-bit UID and its name) and what can
  leave a callback other than a value.
* `Node`, `Parameters`, `MultiThreadedExecutor` — an rclcpp node, its boolean parameters and the
  nodes an executor spins.
-/

set_option autoImplicit false

namespace DrtBehavior

/-- A `std::string`. -/
abbrev StdString := List UInt8

/-- The bytes of a string literal. -/
def bytes (s : String) : StdString := s.toByteArray.data.toList

/-! ## BehaviorTree.CPP -/

/-- `BT::NodeStatus`. -/
abbrev NodeStatus := BehaviorTree.NodeStatus

/-- A node of an instantiated `BT::Tree`. -/
inductive TreeNode where
  | control (uid : UInt16) (name : StdString) (children : List TreeNode)
  | decorator (uid : UInt16) (name : StdString) (child : TreeNode)
  | leaf (uid : UInt16) (name : StdString)

namespace TreeNode

mutual

/-- The tree without its node kinds. -/
def shape : TreeNode → Rose (UInt16 × StdString)
  | .control uid name children => .node (uid, name) (shapes children)
  | .decorator uid name child => .node (uid, name) [shape child]
  | .leaf uid name => .node (uid, name) []

def shapes : List TreeNode → List (Rose (UInt16 × StdString))
  | [] => []
  | t :: ts => shape t :: shapes ts

end

/-- The UIDs of a tree in depth-first pre-order. -/
def uids (t : TreeNode) : List UInt16 := t.shape.labels.map Prod.fst

end TreeNode

/-- What can leave a callback instead of a value: a `BT::RuntimeError` with its text, or the
    undefined behaviour of dereferencing a null pointer or of reading a vector past its end. -/
inductive Fault where
  | runtimeError (what : StdString)
  | nullDereference
  | outOfBounds
  deriving DecidableEq, Repr

/-- A computation that may fault has succeeded: so has its first step, and what follows it. -/
theorem bind_eq_ok {α β : Type} {x : Except Fault α} {f : α → Except Fault β} {b : β}
    (h : (x >>= f) = .ok b) : ∃ a, x = .ok a ∧ f a = .ok b := by
  cases x with
  | error fault => cases h
  | ok a => exact ⟨a, rfl, h⟩

/-- The outcome is a `BT::RuntimeError` or a value with the property. -/
def ThrowsOr {R : Type} (P : R → Prop) : Except Fault R → Prop
  | .ok r => P r
  | .error (.runtimeError _) => True
  | .error _ => False

/-- `BT::toStr(status, true)`: the status word between its ANSI colour and the reset code. -/
def ansiStatus : NodeStatus → StdString
  | .success => bytes "\x1b[32mSUCCESS\x1b[0m"
  | .failure => bytes "\x1b[31mFAILURE\x1b[0m"
  | .running => bytes "\x1b[33mRUNNING\x1b[0m"
  | .skipped => bytes "\x1b[34mSKIPPED\x1b[0m"
  | .idle => bytes "\x1b[36mIDLE\x1b[0m"

/-! ## rclcpp -/

/-- Identity of a node object: the node of the tree execution server, or the node of the `n`-th
    tree context. -/
inductive NodeId where
  | server
  | tree (n : Nat)
  deriving DecidableEq, Repr

/-- `rclcpp::NodeOptions`, the two options the source sets. -/
structure NodeOptions where
  allowUndeclaredParameters : Bool
  automaticallyDeclareParametersFromOverrides : Bool
  deriving DecidableEq, Repr

/-- `rclcpp::Node`. -/
structure Node where
  id : NodeId
  name : StdString
  options : NodeOptions
  deriving DecidableEq, Repr

/-- The boolean parameters of a node; `none` is an undeclared parameter. -/
abbrev Parameters := StdString → Option Bool

/-- The parameters of a freshly created node: its overrides when the node declares them, else
    none. -/
def Node.initialParameters (node : Node) (overrides : Parameters) : Parameters :=
  if node.options.automaticallyDeclareParametersFromOverrides then overrides else fun _ => none

/-- `Node::get_parameter_or`. -/
def getParameterOr (params : Parameters) (name : StdString) (alternative : Bool) : Bool :=
  (params name).getD alternative

/-- `Node::set_parameter` on a node that allows undeclared parameters. -/
def setParameter (params : Parameters) (name : StdString) (value : Bool) : Parameters :=
  fun n => if n = name then some value else params n

@[simp] theorem setParameter_self (params : Parameters) (name : StdString) (value : Bool) :
    setParameter params name value name = some value := if_pos rfl

theorem setParameter_ne (params : Parameters) {name other : StdString} (value : Bool)
    (h : other ≠ name) : setParameter params name value other = params other := if_neg h

/-- `rclcpp::executors::MultiThreadedExecutor`: the nodes added, not removed and not destroyed. -/
structure MultiThreadedExecutor where
  nodes : List NodeId
  deriving DecidableEq, Repr

def MultiThreadedExecutor.addNode (e : MultiThreadedExecutor) (id : NodeId) :
    MultiThreadedExecutor := ⟨e.nodes ++ [id]⟩

def MultiThreadedExecutor.removeNode (e : MultiThreadedExecutor) (id : NodeId) :
    MultiThreadedExecutor := ⟨e.nodes.filter fun n => decide (n ≠ id)⟩

/-- A node object is destroyed.  The executor only holds weak pointers to its nodes. -/
def MultiThreadedExecutor.nodeDestroyed (e : MultiThreadedExecutor) (id : NodeId) :
    MultiThreadedExecutor := e.removeNode id

end DrtBehavior
