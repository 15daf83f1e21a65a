import WorkflowBundle.Identifier
import WorkflowBundle.Interface

/-! Workflows: typed graphs of nodes whose inputs are bound to workflow inputs, to outputs of
other nodes or to literals. -/
namespace WorkflowBundle

/-- Where a bound value comes from. -/
inductive Origin where
  | workflowInput (name : String)
  | nodeOutput (node output : String)
  | literal (value : Literal)
  deriving Inhabited

structure Binding where
  parameter : String
  origin : Origin
  deriving Inhabited

inductive Comparison where
  | eq
  | ne
  | gt
  | gte
  | lt
  | lte
  deriving DecidableEq, Repr, Inhabited

namespace Comparison

def all : List Comparison := [eq, ne, gt, gte, lt, lte]

def name : Comparison → String
  | eq => "eq"
  | ne => "ne"
  | gt => "gt"
  | gte => "gte"
  | lt => "lt"
  | lte => "lte"

def title : Comparison → String
  | eq => "Eq"
  | ne => "Ne"
  | gt => "Gt"
  | gte => "Gte"
  | lt => "Lt"
  | lte => "Lte"

end Comparison

/-- One side of a comparison: an input of the branch or a literal. -/
inductive Operand where
  | input (name : String)
  | literal (value : Literal)
  deriving Inhabited

inductive Condition where
  | comparison (left : Operand) (op : Comparison) (right : Operand)
  | and (left right : Condition)
  | or (left right : Condition)
  deriving Inhabited

structure NodeHead where
  id : String
  inputs : List Binding := []
  /-- Nodes that have to run before, without a value being passed. -/
  runsAfter : List String := []
  deriving Inhabited

/-- One step of a workflow. A call runs an entity of the bundle, a branch runs one of its two
arms. The start node stands for the workflow inputs and the finish node for its outputs. -/
inductive Node where
  | call (head : NodeHead) (kind : ResourceType) (reference : EntityId)
  | branch (head : NodeHead) (condition : Condition) (whenTrue whenFalse : Node)
  | start (head : NodeHead)
  | finish (head : NodeHead)
  deriving Inhabited

namespace Node

def head : Node → NodeHead
  | call head _ _ | branch head _ _ _ | start head | finish head => head

def id (node : Node) : String := node.head.id

def inputs (node : Node) : List Binding := node.head.inputs

def runsAfter (node : Node) : List String := node.head.runsAfter

def isStart : Node → Bool
  | start _ => true
  | _ => false

def isFinish : Node → Bool
  | finish _ => true
  | _ => false

/-- A call or a branch. -/
def isStep (node : Node) : Bool := !node.isStart && !node.isFinish

def kindName : Node → String
  | call _ kind _ => kind.name
  | branch .. => "branch"
  | start _ => "start"
  | finish _ => "end"

/-- The node, then the nodes of its arms. -/
def flatten : Node → List Node
  | branch head condition a b => branch head condition a b :: (a.flatten ++ b.flatten)
  | node => [node]

/-- The entity that the node itself refers to. -/
def reference? : Node → Option EntityId
  | call _ _ reference => some reference
  | _ => none

/-- Entities that the node and the nodes of its arms refer to. -/
def references : Node → List EntityId
  | call _ _ reference => [reference]
  | branch _ _ a b => a.references ++ b.references
  | _ => []

end Node

structure Workflow where
  id : EntityId
  interface : Interface
  nodes : List Node := []
  outputs : List Binding := []
  deriving Inhabited

namespace Workflow

/-- Id of the node whose outputs are the workflow inputs. -/
def startId : String := "start-node"

/-- Id of the node whose inputs are the workflow outputs. -/
def finishId : String := "end-node"

/-- All nodes, those of the arms after their branch. -/
def allNodes (w : Workflow) : List Node := w.nodes.flatMap Node.flatten

def references (w : Workflow) : List EntityId := w.nodes.flatMap Node.references

def startNode? (w : Workflow) : Option Node := w.nodes.find? Node.isStart

def finishNode? (w : Workflow) : Option Node := w.nodes.find? Node.isFinish

/-- The id means the start node: the reserved one, or that of the declared node. -/
def namesStart (w : Workflow) (id : String) : Bool :=
  id == startId || w.startNode?.any (·.id == id)

def namesFinish (w : Workflow) (id : String) : Bool :=
  id == finishId || w.finishNode?.any (·.id == id)

end Workflow

end WorkflowBundle
