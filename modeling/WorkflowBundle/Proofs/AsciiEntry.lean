import Mathlib
import WorkflowBundle.Proofs.Compile
import WorkflowBundle.Proofs.Text.Utf8

/-! Entries whose text is ASCII. Their bytes are the numbers of the characters, so what they hold
is read from the characters. The sample is a bundle of such entries that compiles: a task, a
workflow that calls it and a plan of that workflow. -/
namespace WorkflowBundle

namespace Utf8

/-- Bytes below 128 are the characters with these numbers. -/
theorem decode_ascii {text : String} (ascii : ∀ c ∈ text.toList, c.toNat < 128) :
    decode (text.toList.map fun c => c.toNat.toUInt8) = .ok text := by
  have bytes : (text.toList.map fun c => c.toNat.toUInt8) = encode text := by
    rw [encode_eq, List.map_eq_flatMap]
    refine List.flatMap_congr fun c among => ?_
    have small : c.val.toNat ≤ 127 := Nat.le_of_lt_succ (ascii c among)
    simp only [String.utf8EncodeChar, if_pos small]
    rfl
  rw [bytes, decode_encode]

end Utf8

namespace Entry

/-- An entry with an ASCII text. -/
def ofText (name text : String) : Entry :=
  ⟨name, text.toList.map fun c => c.toNat.toUInt8⟩

theorem record?_ofText (name : String) {text : String} {chars : List Char} {e : Entity}
    (spelled : text.toList = chars) (ascii : chars.all (·.toNat < 128))
    (read : Entity.ofText (String.ofList chars) = .ok e) :
    (ofText name text).record? = some ⟨name, e⟩ := by
  rw [← spelled] at ascii read
  rw [String.ofList_toList] at read
  refine record?_eq_some_iff.mpr ⟨rfl, ?_⟩
  rw [ofText, Entity.decode, Utf8.decode_ascii (by simpa using ascii)]
  exact read

end Entry

namespace Sample

def task : Task where
  id := ⟨.task, "p", "d", "t", "1"⟩
  interface := ⟨.ofList [("x", { dataType := .simple .integer })],
    .ofList [("y", .simple .integer)]⟩

def workflow : Workflow where
  id := ⟨.workflow, "p", "d", "w", "1"⟩
  interface := task.interface
  nodes := [.call ⟨"n", [⟨"x", .workflowInput "x"⟩], []⟩ .task task.id]
  outputs := [⟨"y", .nodeOutput "n" "y"⟩]

def plan : LaunchPlan where
  id := ⟨.launchPlan, "p", "d", "l", "1"⟩
  workflow := workflow.id
  fixedInputs := .ofList [("x", .integer 3)]

def taskEntry : Entry := .ofText "t" "\x7b\"kind\":\"task\",\"id\":[\"task\",\"p\",\"d\",\"t\",\"1\"],
  \"interface\":[\x7b\"x\":[\x7b\"simple\":\"integer\"\x7d]\x7d,\x7b\"y\":\x7b\"simple\":\"integer\"\x7d\x7d]\x7d"

def workflowEntry : Entry := .ofText "w" "\x7b\"kind\":\"workflow\",
  \"id\":[\"workflow\",\"p\",\"d\",\"w\",\"1\"],
  \"interface\":[\x7b\"x\":[\x7b\"simple\":\"integer\"\x7d]\x7d,\x7b\"y\":\x7b\"simple\":\"integer\"\x7d\x7d],
  \"nodes\":[[\"n\",\x7b\"type\":\"task\",\"reference\":[\"task\",\"p\",\"d\",\"t\",\"1\"]\x7d,
    [[\"x\",\x7b\"workflow_input\":[\"x\"]\x7d]]]],
  \"outputs\":[[\"y\",\x7b\"node_output\":[\"n\",\"y\"]\x7d]]\x7d"

def planEntry : Entry := .ofText "l" "\x7b\"kind\":\"launch_plan\",
  \"id\":[\"launch_plan\",\"p\",\"d\",\"l\",\"1\"],
  \"workflow\":[\"workflow\",\"p\",\"d\",\"w\",\"1\"],\"fixed_inputs\":\x7b\"x\":\x7b\"integer\":3\x7d\x7d\x7d"

set_option maxRecDepth 10000

theorem record?_taskEntry : taskEntry.record? = some ⟨"t", .task task⟩ := by
  refine Entry.record?_ofText "t" String.toList_ofList (by decide +kernel) ?_
  rw [Entity.ofText, Entity.source, Json.Reader.source, String.toList_ofList]
  cbv

theorem record?_workflowEntry : workflowEntry.record? = some ⟨"w", .workflow workflow⟩ := by
  refine Entry.record?_ofText "w" String.toList_ofList (by decide +kernel) ?_
  rw [Entity.ofText, Entity.source, Json.Reader.source, String.toList_ofList]
  cbv

theorem record?_planEntry : planEntry.record? = some ⟨"l", .launchPlan plan⟩ := by
  refine Entry.record?_ofText "l" String.toList_ofList (by decide +kernel) ?_
  rw [Entity.ofText, Entity.source, Json.Reader.source, String.toList_ofList]
  cbv

def entries : List Entry := [taskEntry, workflowEntry, planEntry]

theorem compiles : ∃ c, compile .anyMember entries = .ok c := by
  have empty : Compilation.foundInRecords .anyMember
      [⟨"t", .task task⟩, ⟨"w", .workflow workflow⟩, ⟨"l", .launchPlan plan⟩] = [] := by cbv
  refine Compilation.exists_compile_of_records ?_ empty
  simp [entries, record?_taskEntry, record?_workflowEntry, record?_planEntry]

end Sample

end WorkflowBundle
