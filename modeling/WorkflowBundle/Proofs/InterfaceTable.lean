import WorkflowBundle.Proofs.Index

/-! The interfaces of a bundle. Every entity offers an interface together with what is wrong
with it; offers without defects make up the table, and the defects of the others are what is
reported. A plan offers what it leaves of the interface of its workflow. -/
namespace WorkflowBundle

namespace Entity

def task? : Entity → Option Task
  | task t => some t
  | _ => none

def workflow? : Entity → Option Workflow
  | workflow w => some w
  | _ => none

def launchPlan? : Entity → Option LaunchPlan
  | launchPlan p => some p
  | _ => none

def rank (e : Entity) : Nat := e.resourceType.rank

theorem task?_of_rank {e : Entity} (h : 0 < e.rank) : e.task? = none := by
  cases e with
  | task t => exact absurd h (Nat.lt_irrefl 0)
  | workflow _ | launchPlan _ => rfl

theorem workflow?_of_rank {e : Entity} (h : 1 < e.rank) : e.workflow? = none := by
  cases e with
  | workflow w => exact absurd h (Nat.lt_irrefl 1)
  | task _ | launchPlan _ => rfl

/-- Entities sorted by their type are the tasks, then the workflows, then the launch plans. -/
theorem split_by_type {es : List Entity} (sorted : es.Pairwise fun a b => a.rank ≤ b.rank) :
    es = (es.filterMap task?).map task ++ (es.filterMap workflow?).map workflow ++
      (es.filterMap launchPlan?).map launchPlan := by
  induction es with
  | nil => rfl
  | cons e es ih =>
    obtain ⟨above, rest⟩ := List.pairwise_cons.mp sorted
    have split := ih rest
    cases e with
    | task t =>
      conv => lhs; rw [split]
      rfl
    | workflow w =>
      have none : es.filterMap task? = [] :=
        List.filterMap_eq_nil_iff.mpr fun e he => task?_of_rank (above e he)
      conv => lhs; rw [split]
      simp [List.filterMap_cons, task?, workflow?, launchPlan?, none]
    | launchPlan p =>
      have none : es.filterMap task? = [] :=
        List.filterMap_eq_nil_iff.mpr fun e he =>
          task?_of_rank (Nat.lt_of_lt_of_le Nat.zero_lt_two (above e he))
      have none' : es.filterMap workflow? = [] :=
        List.filterMap_eq_nil_iff.mpr fun e he => workflow?_of_rank (above e he)
      conv => lhs; rw [split]
      simp [List.filterMap_cons, task?, workflow?, launchPlan?, none, none']

end Entity

theorem EntityId.rank_le_of_lt {a b : EntityId} (h : compare a b = .lt) :
    a.resourceType.rank ≤ b.resourceType.rank := by
  have h : EntityId.order a b = .lt := h
  simp only [EntityId.order, compareLex, compareOn, Ordering.then_eq_lt, Nat.compare_eq_lt,
    Nat.compare_eq_eq] at h
  omega

/-- An interface that an entity could expose, with what is wrong with it. -/
structure Offer where
  id : EntityId
  interface : Interface
  defects : List Defect

namespace Offer

def ofTask (t : Task) : Offer :=
  ⟨t.id, t.interface, t.interface.defaultDefects t.id ++ t.interface.genericDefects t.id⟩

def ofWorkflow (w : Workflow) : Offer := ⟨w.id, w.interface, w.interface.defaultDefects w.id⟩

def ofPlan (p : LaunchPlan) (workflow : Interface) : Offer :=
  ⟨p.id, p.exposed workflow, p.defects workflow⟩

def accepted? (o : Offer) : Option Interface := if o.defects.isEmpty then some o.interface else none

def add (state : InterfaceTable × List Defect) (o : Offer) : InterfaceTable × List Defect :=
  InterfaceTable.add state o.id o.interface o.defects

variable {offers : List Offer} {state : InterfaceTable × List Defect}

theorem foldl_add_snd : (offers.foldl add state).2 = state.2 ++ offers.flatMap Offer.defects := by
  induction offers generalizing state with
  | nil => simp
  | cons o offers ih =>
    rw [List.foldl_cons, ih, List.flatMap_cons]
    unfold add InterfaceTable.add
    split
    next none => simp [List.isEmpty_iff.mp none]
    next => simp

theorem get?_add (o : Offer) (id : EntityId) :
    (add state o).1.get? id = if id = o.id then o.accepted?.or (state.1.get? id)
      else state.1.get? id := by
  unfold add InterfaceTable.add accepted?
  split
  next none =>
    by_cases same : id = o.id
    · simp [same]
    · simp [same, SortedMap.get?_insert_of_ne]
  next some => simp

theorem get?_foldl_add_of_notMem {id : EntityId} (h : id ∉ offers.map Offer.id) :
    (offers.foldl add state).1.get? id = state.1.get? id := by
  induction offers generalizing state with
  | nil => rfl
  | cons o offers ih =>
    simp only [List.map_cons, List.mem_cons, not_or] at h
    rw [List.foldl_cons, ih h.2, get?_add, if_neg h.1]

theorem get?_foldl_add_of_mem (state : InterfaceTable × List Defect)
    (distinct : (offers.map Offer.id).Nodup) {o : Offer} (member : o ∈ offers) :
    (offers.foldl add state).1.get? o.id = o.accepted?.or (state.1.get? o.id) := by
  induction offers generalizing state with
  | nil => contradiction
  | cons other offers ih =>
    obtain ⟨apart, distinct⟩ := List.nodup_cons.mp distinct
    rw [List.foldl_cons]
    rcases List.mem_cons.mp member with rfl | member
    · rw [get?_foldl_add_of_notMem apart, get?_add, if_pos rfl]
    · have differ : o.id ≠ other.id := fun same =>
        apart (same ▸ List.mem_map.mpr ⟨o, member, rfl⟩)
      rw [ih _ distinct member, get?_add, if_neg differ]

end Offer

theorem LaunchPlan.narrow_eq (p : LaunchPlan) (i : Interface) :
    p.narrow i = if (p.defects i).isEmpty then .ok (p.exposed i) else .error (p.defects i) := by
  unfold narrow
  split
  next none => simp [none]
  next some => rw [if_neg]; simpa using some

/-- What a plan fixes is no input of it. -/
theorem LaunchPlan.get?_exposed_of_fixed {p : LaunchPlan} {i : Interface} {name : String}
    (fixed : p.fixedInputs.contains name) : (p.exposed i).inputs.get? name = none := by
  rw [exposed, SortedMap.get?_filterMap]
  cases i.inputs.get? name with
  | none => rfl
  | some parameter => simp [exposedInput, fixed]

theorem LaunchPlan.eq_exposed_of_narrow {p : LaunchPlan} {i left : Interface}
    (h : p.narrow i = .ok left) : left = p.exposed i := by
  rw [narrow_eq] at h
  split at h
  · exact (Except.ok.inj h).symm
  · contradiction

theorem InterfaceTable.addLaunchPlan_eq (state : InterfaceTable × List Defect) (p : LaunchPlan) :
    addLaunchPlan state p = match state.1.get? p.workflow with
      | none => state
      | some workflow => Offer.add state (.ofPlan p workflow) := by
  cases found : state.1.get? p.workflow with
  | none => simp [addLaunchPlan, found]
  | some workflow =>
    simp only [addLaunchPlan, found, LaunchPlan.narrow_eq, Offer.add, Offer.ofPlan, add]
    by_cases none : (p.defects workflow).isEmpty <;> simp [none]

/-- Plans make their offers independently when none of them narrows another. -/
theorem InterfaceTable.foldl_addLaunchPlan {plans : List LaunchPlan}
    {target : EntityId → Option Interface} {state : InterfaceTable × List Defect}
    (apart : ∀ p ∈ plans, ∀ q ∈ plans, p.workflow ≠ q.id)
    (known : ∀ p ∈ plans, state.1.get? p.workflow = target p.workflow) :
    plans.foldl addLaunchPlan state =
      (plans.filterMap fun p => (target p.workflow).map (.ofPlan p)).foldl Offer.add state := by
  induction plans generalizing state with
  | nil => rfl
  | cons q plans ih =>
    have apart' : ∀ p ∈ plans, ∀ q ∈ plans, p.workflow ≠ q.id :=
      fun p hp q hq => apart p (by simp [hp]) q (by simp [hq])
    rw [List.foldl_cons, addLaunchPlan_eq, known q (by simp), List.filterMap_cons]
    cases target q.workflow with
    | none => exact ih apart' fun p hp => known p (by simp [hp])
    | some workflow =>
      refine ih apart' fun p hp => ?_
      have differ : p.workflow ≠ (Offer.ofPlan q workflow).id := apart p (by simp [hp]) q (by simp)
      rw [Offer.get?_add, if_neg differ]
      exact known p (by simp [hp])

namespace Index

variable {index : Index} {id : EntityId} {e : Entity}

/-- The interface that a plan over this workflow narrows. -/
def target? (index : Index) (workflow : EntityId) : Option Interface :=
  match index.get? workflow with
  | some (.workflow w) => (Offer.ofWorkflow w).accepted?
  | _ => none

def offer? (index : Index) : Entity → Option Offer
  | .task t => some (.ofTask t)
  | .workflow w => some (.ofWorkflow w)
  | .launchPlan p => (index.target? p.workflow).map (.ofPlan p)

def exposed? (index : Index) (e : Entity) : Option Interface := (index.offer? e).bind Offer.accepted?

def interfaceDefects (index : Index) (e : Entity) : List Defect :=
  ((index.offer? e).map Offer.defects).getD []

theorem offer?_id {o : Offer} (h : index.offer? e = some o) : o.id = e.id := by
  cases e with
  | task t => obtain rfl := Option.some.inj h; rfl
  | workflow w => obtain rfl := Option.some.inj h; rfl
  | launchPlan p =>
    obtain ⟨i, -, rfl⟩ := Option.map_eq_some_iff.mp h
    rfl

namespace Coherent

variable (coherent : index.Coherent)
include coherent

theorem entities_split : index.entities = index.tasks.map .task ++ index.workflows.map .workflow ++
    index.launchPlans.map .launchPlan := by
  refine Entity.split_by_type ?_
  simp only [entities, SortedMap.values, List.map_map, List.pairwise_map]
  refine List.Pairwise.imp_of_mem ?_ index.records.increasing
  intro a b ha hb lt
  have typed : ∀ e ∈ index.records.entries, e.2.entity.resourceType = e.1.resourceType := by
    intro e he
    have found := SortedMap.get?_eq_some_iff.mpr he
    rw [← (coherent.identified _ _ found).own]
    exact congrArg _ (coherent.keyed _ _ found)
  simpa [Entity.rank, typed a ha, typed b hb] using EntityId.rank_le_of_lt lt

theorem mem_tasks_iff {t : Task} : t ∈ index.tasks ↔ index.get? t.id = some (.task t) := by
  have listed : t ∈ index.tasks ↔ .task t ∈ index.entities := by
    rw [coherent.entities_split]; simp
  exact listed.trans coherent.mem_entities_iff

theorem mem_workflows_iff {w : Workflow} :
    w ∈ index.workflows ↔ index.get? w.id = some (.workflow w) := by
  have listed : w ∈ index.workflows ↔ .workflow w ∈ index.entities := by
    rw [coherent.entities_split]; simp
  exact listed.trans coherent.mem_entities_iff

theorem mem_launchPlans_iff {p : LaunchPlan} :
    p ∈ index.launchPlans ↔ index.get? p.id = some (.launchPlan p) := by
  have listed : p ∈ index.launchPlans ↔ .launchPlan p ∈ index.entities := by
    rw [coherent.entities_split]; simp
  exact listed.trans coherent.mem_entities_iff

theorem nodup_offers : ((index.entities.filterMap index.offer?).map Offer.id).Nodup := by
  have distinct := List.pairwise_map.mp (List.nodup_iff_pairwise_ne.mp coherent.nodup_ids_entities)
  refine List.nodup_iff_pairwise_ne.mpr (List.pairwise_map.mpr ?_)
  refine List.Pairwise.filterMap index.offer? (fun a b differ o ho p hp => ?_) distinct
  rwa [offer?_id ho, offer?_id hp]

/-- A plan is over a workflow, so that no plan changes what another one narrows. -/
theorem target_ne_of_plan {p q : LaunchPlan} (hp : p ∈ index.launchPlans)
    (hq : q ∈ index.launchPlans) : p.workflow ≠ q.id := by
  intro same
  have target := (coherent.identified_of_get? (coherent.mem_launchPlans_iff.mp hp)).target p rfl
  have own := (coherent.identified_of_get? (coherent.mem_launchPlans_iff.mp hq)).own
  rw [same, show q.id.resourceType = _ from own] at target
  contradiction

theorem offers_split : index.entities.filterMap index.offer? =
    (index.tasks.map Offer.ofTask ++ index.workflows.map Offer.ofWorkflow) ++
      index.launchPlans.filterMap fun p => (index.target? p.workflow).map (.ofPlan p) := by
  conv => lhs; rw [coherent.entities_split]
  rw [List.filterMap_append, List.filterMap_append, List.filterMap_map, List.filterMap_map,
    List.filterMap_map, ← List.filterMap_eq_map', ← List.filterMap_eq_map']
  rfl

/-- The table before the plans has the interface of each workflow that a plan may narrow. -/
theorem get?_before_plans {id : EntityId} (h : id.resourceType = .workflow) :
    ((index.tasks.map Offer.ofTask ++ index.workflows.map Offer.ofWorkflow).foldl Offer.add
      (.empty, [])).1.get? id = index.target? id := by
  have distinct := coherent.nodup_offers
  rw [coherent.offers_split, List.map_append] at distinct
  have distinct := (List.nodup_append.mp distinct).1
  by_cases member : ∃ w ∈ index.workflows, w.id = id
  · obtain ⟨w, hw, rfl⟩ := member
    have listed : Offer.ofWorkflow w ∈ index.tasks.map Offer.ofTask ++
        index.workflows.map Offer.ofWorkflow :=
      List.mem_append_right _ (List.mem_map_of_mem hw)
    have found := Offer.get?_foldl_add_of_mem (.empty, []) distinct listed
    rw [SortedMap.get?_empty, Option.or_none] at found
    rw [target?, coherent.mem_workflows_iff.mp hw]
    exact found
  · have absent : id ∉ (index.tasks.map Offer.ofTask ++
        index.workflows.map Offer.ofWorkflow).map Offer.id := by
      simp only [List.map_append, List.map_map, List.mem_append, List.mem_map, not_or]
      refine ⟨?_, fun ⟨w, hw, same⟩ => member ⟨w, hw, same⟩⟩
      rintro ⟨t, ht, rfl⟩
      have own := (coherent.identified_of_get? (coherent.mem_tasks_iff.mp ht)).own
      rw [show (Offer.id ∘ Offer.ofTask) t = t.id from rfl, show t.id.resourceType = _ from own] at h
      contradiction
    rw [Offer.get?_foldl_add_of_notMem absent, SortedMap.get?_empty]
    unfold target?
    split
    next w found =>
      have same := coherent.id_eq found
      refine absurd ⟨w, coherent.mem_workflows_iff.mpr ?_, same⟩ member
      rw [show w.id = id from same, found]
    next => rfl

/-- Every entity makes its offer in turn. -/
theorem resolve_eq : InterfaceTable.resolve index =
    (index.entities.filterMap index.offer?).foldl Offer.add (.empty, []) := by
  have before : index.workflows.foldl InterfaceTable.addWorkflow
        (index.tasks.foldl InterfaceTable.addTask (.empty, [])) =
      (index.tasks.map Offer.ofTask ++ index.workflows.map Offer.ofWorkflow).foldl Offer.add
        (.empty, []) := by
    rw [List.foldl_append, List.foldl_map, List.foldl_map]
    rfl
  rw [coherent.offers_split, List.foldl_append, ← before, InterfaceTable.resolve]
  refine InterfaceTable.foldl_addLaunchPlan (fun p hp q hq => coherent.target_ne_of_plan hp hq) ?_
  intro p hp
  have target := (coherent.identified_of_get? (coherent.mem_launchPlans_iff.mp hp)).target p rfl
  rw [before, coherent.get?_before_plans target]

theorem resolve_defects :
    (InterfaceTable.resolve index).2 = index.entities.flatMap index.interfaceDefects := by
  rw [coherent.resolve_eq, Offer.foldl_add_snd, List.nil_append]
  induction index.entities with
  | nil => rfl
  | cons e es ih =>
    rw [List.flatMap_cons, ← ih, List.filterMap_cons, interfaceDefects]
    cases index.offer? e <;> rfl

/-- The table has for each declared identifier what its entity exposes. -/
theorem get?_resolve (id : EntityId) :
    (InterfaceTable.resolve index).1.get? id = (index.get? id).bind index.exposed? := by
  rw [coherent.resolve_eq]
  by_cases member : ∃ o ∈ index.entities.filterMap index.offer?, o.id = id
  · obtain ⟨o, ho, rfl⟩ := member
    obtain ⟨e, he, offered⟩ := List.mem_filterMap.mp ho
    have found := coherent.mem_entities_iff.mp he
    rw [← offer?_id offered] at found
    rw [Offer.get?_foldl_add_of_mem _ coherent.nodup_offers ho, found]
    simp [exposed?, offered]
  · have absent : id ∉ (index.entities.filterMap index.offer?).map Offer.id := by
      rintro listed
      obtain ⟨o, ho, same⟩ := List.mem_map.mp listed
      exact member ⟨o, ho, same⟩
    rw [Offer.get?_foldl_add_of_notMem absent, SortedMap.get?_empty]
    cases found : index.get? id with
    | none => rfl
    | some e =>
      have none : index.offer? e = none := by
        by_contra some
        obtain ⟨o, offered⟩ := Option.ne_none_iff_exists'.mp some
        have same := coherent.id_eq found
        refine member ⟨o, List.mem_filterMap.mpr ⟨e, ?_, offered⟩, (offer?_id offered).trans same⟩
        rw [coherent.mem_entities_iff, same, found]
      simp [exposed?, none]

end Coherent

end Index

end WorkflowBundle
