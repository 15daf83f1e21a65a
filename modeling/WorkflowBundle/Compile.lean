import WorkflowBundle.Entity.Decode
import WorkflowBundle.Workflow.Check

/-! Compiling a bundle. Everything that is wrong with its entries is reported together, in an
order that does not depend on the order of the entries. -/
namespace WorkflowBundle

namespace Index

/-- Entities in identifier order with an edge from each to those that refer to it. -/
def dependencyGraph (index : Index) : Digraph EntityId :=
  let ids := index.ids
  .ofEdges ids <| index.records.entries.flatMap fun (id, record) =>
    (record.entity.references.filter index.declares).map fun reference =>
      (ids.idxOf reference, ids.idxOf id)

/-- Registration order of all entities, or a cycle for each knot of them. -/
def registrationOrder (index : Index) : Except (List (List EntityId)) (List EntityId) :=
  let g := index.dependencyGraph
  match g.order? with
  | some order => .ok (g.labelAll order)
  | none => .error g.cycles

def cycleDefects (index : Index) : List Defect :=
  match index.registrationOrder with
  | .ok _ => []
  | .error cycles => cycles.map .circularDependency

end Index

/-- What is known about a bundle before its workflows are checked. -/
structure Compilation where
  index : Index
  interfaces : InterfaceTable
  rule : UnionRule

namespace Compilation

def scope (c : Compilation) (w : Workflow) : Scope := ⟨w, c.index, c.interfaces, c.rule⟩

/-- An entity with what was found out about it. -/
def member? (c : Compilation) (id : EntityId) (record : Record) : Option Member :=
  match record.entity with
  | .task t => some (.task t)
  | .workflow w => ((c.scope w).check).toOption.map .workflow
  | .launchPlan p => (c.interfaces.get? id).map (.launchPlan p)

def closure (c : Compilation) : Closure :=
  let members := c.index.records.filterMap c.member?
  ⟨members, (c.index.registrationOrder.toOption.getD []).filter members.contains⟩

end Compilation

def compile (rule : UnionRule) (entries : List Entry) : Except Defect Closure :=
  let (records, undecodable) := Entry.decodeAll entries
  let (index, indexDefects) := Index.build records
  let (interfaces, interfaceDefects) := InterfaceTable.resolve index
  let c : Compilation := ⟨index, interfaces, rule⟩
  let workflowDefects := index.workflows.flatMap fun w => (c.scope w).defects
  match undecodable ++ indexDefects ++ interfaceDefects ++ workflowDefects ++ index.cycleDefects with
  | [] => .ok c.closure
  | defects => .error (.gather defects)

end WorkflowBundle
