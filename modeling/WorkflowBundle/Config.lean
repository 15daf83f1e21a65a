import WorkflowBundle.DataType.Compatibility
import WorkflowBundle.NamePattern

/-! Settings of a compilation. Every one has a default, so nothing needs to be set. Data formats
differ in how settings are written in them, but the settings are the same in all. -/
namespace WorkflowBundle

namespace UnionRule

def all : List UnionRule := [anyMember, allMembers]

def ofName? (name : String) : Option UnionRule := all.find? (·.name == name)

end UnionRule

structure Limits where
  maxEntries : UInt64 := 10000
  maxEntryBytes : UInt64 := 16777216
  maxTotalBytes : UInt64 := 268435456
  deriving DecidableEq, Repr, Inhabited

structure Config where
  limits : Limits := {}
  ignore : List String := []
  /-- Workflows may be compiled side by side. The result is the same. -/
  parallel : Bool := true
  union : UnionRule := .anyMember
  deriving DecidableEq, Repr, Inhabited

/-- How values of a data format are taken for settings. -/
structure SettingFormat (ν : Type) where
  /-- Named fields of a record with these known fields, and a fault that is found after them. -/
  fields : List String → ν → Except Fault (List (String × ν) × Option Fault)
  items : ν → Except Fault (List ν)
  text : ν → Except Fault String
  truth : ν → Except Fault Bool
  number : ν → Except Fault UInt64
  name : List String → ν → Except Fault String

namespace SettingFormat

/-- Reads the known ones of some fields in turn. -/
def readKnown (known : List String) (step : String → ν → δ → Except Fault δ) :
    List (String × ν) → (seen : List String) → δ → Except Fault δ
  | [], _, draft => .ok draft
  | (name, value) :: rest, seen, draft =>
    if !known.contains name then readKnown known step rest seen draft
    else if seen.contains name then .error (.duplicateField name)
    else do readKnown known step rest (name :: seen) (← step name value draft)

/-- Reads a record whose fields have defaults. -/
def record (f : SettingFormat ν) (known : List String) (step : String → ν → δ → Except Fault δ)
    (default : δ) (value : ν) : Except Fault δ := do
  let (fields, after) ← f.fields known value
  let draft ← readKnown known step fields [] default
  match after with
  | none => .ok draft
  | some fault => .error fault

end SettingFormat

namespace Limits

def set (limits : Limits) (field : String) (value : UInt64) : Limits :=
  match field with
  | "max_entries" => { limits with maxEntries := value }
  | "max_entry_bytes" => { limits with maxEntryBytes := value }
  | _ => { limits with maxTotalBytes := value }

def toJson (limits : Limits) : Json :=
  .object [("max_entries", .int limits.maxEntries.toNat),
    ("max_entry_bytes", .int limits.maxEntryBytes.toNat),
    ("max_total_bytes", .int limits.maxTotalBytes.toNat)]

def read (f : SettingFormat ν) : ν → Except Fault Limits :=
  f.record ["max_entries", "max_entry_bytes", "max_total_bytes"]
    (fun field value limits => return limits.set field (← f.number value)) {}

end Limits

namespace UnionRule

def read (f : SettingFormat ν) (value : ν) : Except Fault UnionRule := do
  match ofName? (← f.name (all.map UnionRule.name) value) with
  | some rule => .ok rule
  | none => .error .mismatch

end UnionRule

namespace Config

def toJson (config : Config) : Json :=
  .object [("limits", config.limits.toJson), ("ignore", .array (config.ignore.map .string)),
    ("parallel", .bool config.parallel), ("types", .object [("union", .string config.union.name)])]

def read (f : SettingFormat ν) : ν → Except Fault Config :=
  f.record ["limits", "ignore", "parallel", "types"]
    (fun field value config =>
      match field with
      | "limits" => return { config with limits := ← Limits.read f value }
      | "ignore" => return { config with ignore := ← (← f.items value).mapM f.text }
      | "parallel" => return { config with parallel := ← f.truth value }
      | _ => do
        let union ← f.record ["union"] (fun _ value _ => UnionRule.read f value) config.union value
        return { config with union })
    {}

end Config

namespace Document

/-- Settings in a document that is part of another one. -/
def settings : SettingFormat Document where
  fields known
    | table fields => do
      let named ← fields.mapM fun (key, value) => do return (← key.readString, value)
      return (named, none)
    | list items => return (known.zip items, if items.length ≤ known.length then none else some .mismatch)
    | _ => .error .mismatch
  items := readList .ok
  text := readString
  truth := readBool
  number := readUInt64
  name known := readChoice .direct known id

end Document

inductive ConfigFault where
  | noEntries
  | entryAboveTotal
  | badPattern (fault : PatternFault)
  | unreadable (path : String)
  | malformed (path : String)
  deriving DecidableEq, Repr

def ConfigFault.message : ConfigFault → String
  | noEntries => "limits.max_entries must be greater than zero"
  | entryAboveTotal => "limits.max_entry_bytes cannot exceed limits.max_total_bytes"
  | badPattern fault => "invalid ignore pattern: " ++ fault.message
  | unreadable path => "failed to read " ++ path ++ ": <cause>"
  | malformed path => path ++ ": <cause>"

namespace Config

def ignorePatterns (config : Config) : Except ConfigFault (List NamePattern) :=
  config.ignore.mapM fun text => (NamePattern.ofText text).mapError .badPattern

def check (config : Config) : Except ConfigFault Unit := do
  if config.limits.maxEntries = 0 then throw .noEntries
  if config.limits.maxTotalBytes < config.limits.maxEntryBytes then throw .entryAboveTotal
  let _ ← config.ignorePatterns

end Config

end WorkflowBundle
