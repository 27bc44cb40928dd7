import Tysel.Algorithm.Tasks.Mcp
import Mathlib.Data.Rat.Init

/-! A server passes on the arguments that are valid under the schema it publishes, except where an
integer is written with a fraction or beyond 64 bits: `1.0` is valid and turned down. -/

namespace Tysel.Tasks

open List Option

def Number.value : Number → ℚ
  | .posInt n => n
  | .negInt n => n
  | .float v => v

namespace Json

/-- The types of JSON Schema: an integer is a number without a fractional part. -/
def HasType (type : String) : Json → Prop
  | .null => type = "null"
  | .bool _ => type = "boolean"
  | .number n => type = "number" ∨ type = "integer" ∧ n.value.isInt
  | .string _ => type = "string"
  | .array _ => type = "array"
  | .object _ => type = "object"

/-- The keyword `type`. -/
def Typed (schema v : Json) : Prop :=
  ∀ type, schema.get "type" = some (.string type) → v.HasType type

def property (schema : Json) (name : String) : Option Json :=
  (schema.get "properties").bind (·.get name)

/-- Validity under JSON Schema 2020-12, for a schema whose properties have a type only. -/
structure Valid (schema v : Json) : Prop where
  type : schema.Typed v
  properties : ∀ name property member, schema.property name = some property →
    v.get name = some member → property.Typed member
  required : v.HasType "object" → ∀ names, schema.get "required" = some (.array names) →
    ∀ name, .string name ∈ names → (v.get name).isSome
  additional : schema.get "additionalProperties" = some (.bool false) →
    ∀ name, (v.get name).isSome → (schema.property name).isSome

end Json

theorem lookup_map {α β : Type} (f : α → β) (l : List (String × α)) (name : String) :
    (l.map fun field => (field.1, f field.2)).lookup name = (l.lookup name).map f := by
  induction l with
  | nil => rfl
  | cons field _ ih =>
    rw [map_cons, lookup_cons, lookup_cons, ih]
    cases name == field.1 <;> rfl

variable {tool : McpTool} {fields : List (String × Json)} {kind : McpValueType} {v : Json}

section

attribute [local simp] McpValueType.accepts McpValueType.schemaType Json.asI64 Json.asU64
  Json.HasType Number.value Rat.isInt

theorem accepts_hasType (h : kind.accepts v = true) : v.HasType kind.schemaType := by
  cases kind with
  | integer => rcases v with _ | _ | (_ | _ | _) | _ | _ | _ <;> simp_all
  | _ => cases v <;> simp_all

theorem accepts_of_hasType (hfloat : kind = .integer → ∀ q, v ≠ .number (.float q))
    (h : v.HasType kind.schemaType) : kind.accepts v = true := by
  cases kind with
  | integer =>
    rcases v with _ | _ | (_ | _ | q) | _ | _ | _
    case number.float => exact absurd rfl (hfloat rfl q)
    all_goals simp_all
  | _ => cases v <;> simp_all

end

/-- Both checks in terms of the members: those that the tool names are there with values that
satisfy `P`, and no others. -/
def Fits (tool : McpTool) (fields : List (String × Json)) (P : McpValueType → Json → Prop) : Prop :=
  ∀ name, Option.Rel P (tool.input.lookup name) (fields.lookup name)

theorem validateArguments_ok_iff : validateArguments tool (.object fields) = .ok () ↔
    Fits tool fields fun kind member => kind.accepts member = true := by
  have hknown : (tool.input.map Prod.fst).forM (validateArgument tool fields) = .ok () ↔
      ∀ name, (tool.input.lookup name).isSome → validateArgument tool fields name = .ok () := by
    rw [forM_ok_iff]
    simp
  have hunknown : fields.find? (fun field => (tool.input.lookup field.1).isNone) = none ↔
      ∀ name, (fields.lookup name).isSome → (tool.input.lookup name).isSome := by
    simp [find?_eq_none]
  have hchecks : validateArguments tool (.object fields) = .ok () ↔
      (tool.input.map Prod.fst).forM (validateArgument tool fields) = .ok () ∧
        fields.find? (fun field => (tool.input.lookup field.1).isNone) = none := by
    rw [validateArguments, bind_ok]
    cases fields.find? _ with
    | none => exact ⟨fun ⟨_, h, _⟩ => ⟨h, rfl⟩, fun ⟨h, _⟩ => ⟨(), h, rfl⟩⟩
    | some => simp
  rw [hchecks, hknown, hunknown, ← forall_and]
  refine forall_congr' fun name => ?_
  unfold validateArgument
  cases tool.input.lookup name <;> cases fields.lookup name <;> simp [reject_ok]

theorem property_inputSchema (name : String) : (inputSchema tool).property name =
    (tool.input.lookup name).map fun kind => .object [("type", .string kind.schemaType)] := by
  rw [← lookup_map]
  rfl

theorem inputSchema_valid_iff : (inputSchema tool).Valid (.object fields) ↔
    Fits tool fields fun kind member => member.HasType kind.schemaType := by
  have hrequired (name) : .string name ∈ tool.input.map (Json.string ·.1) ↔
      (tool.input.lookup name).isSome := by simp
  constructor
  · intro h name
    cases hkind : tool.input.lookup name with
    | none =>
      cases hmember : fields.lookup name with
      | none => exact .none
      | some =>
        have hknown := h.additional rfl name (isSome_of_eq_some hmember)
        simp [property_inputSchema, hkind] at hknown
    | some =>
      have hname := (hrequired name).mpr (isSome_of_eq_some hkind)
      obtain ⟨member, hmember⟩ := isSome_iff_exists.mp (h.required rfl _ rfl name hname)
      have hproperty := @property_inputSchema tool name
      rw [hkind] at hproperty
      rw [show fields.lookup name = some member from hmember]
      exact .some (h.properties name _ member hproperty hmember _ rfl)
  · intro h
    have hsome (name) : (tool.input.lookup name).isSome = (fields.lookup name).isSome := by
      have hfits := h name
      revert hfits
      cases tool.input.lookup name <;> cases fields.lookup name <;> simp
    refine ⟨?_, fun name property member hproperty hmember => ?_, ?_, fun _ name hname => ?_⟩
    · rintro _ ⟨⟩
      rfl
    · rw [property_inputSchema, map_eq_some_iff] at hproperty
      obtain ⟨_, hkind, rfl⟩ := hproperty
      have hfits := h name
      rw [hkind, show fields.lookup name = some member from hmember, rel_some_some] at hfits
      rintro _ ⟨⟩
      exact hfits
    · rintro - _ ⟨⟩ _ hname
      rwa [hrequired, hsome] at hname
    · rw [property_inputSchema, isSome_map, hsome]
      exact hname

/-- No member that has to be an integer is held as a float. -/
def NoFloats (tool : McpTool) (v : Json) : Prop :=
  ∀ name q, tool.input.lookup name = some .integer → v.get name ≠ some (.number (.float q))

theorem valid_of_validateArguments (h : validateArguments tool v = .ok ()) :
    (inputSchema tool).Valid v ∧ NoFloats tool v := by
  cases v with
  | object fields =>
    have hfits := validateArguments_ok_iff.mp h
    constructor
    · refine inputSchema_valid_iff.mpr fun name => ?_
      have hname := hfits name
      revert hname
      cases tool.input.lookup name <;> cases fields.lookup name <;> simp
      exact accepts_hasType
    intro name q hkind hmember
    have hmember : fields.lookup name = some (.number (.float q)) := hmember
    have hname := hfits name
    rw [hkind, hmember, rel_some_some] at hname
    cases hname
  | _ => cases h

theorem validateArguments_of_valid (hfloat : NoFloats tool v)
    (h : (inputSchema tool).Valid v) : validateArguments tool v = .ok () := by
  cases v with
  | object fields =>
    refine validateArguments_ok_iff.mpr fun name => ?_
    have hname := inputSchema_valid_iff.mp h name
    cases hkind : tool.input.lookup name <;> cases hmember : fields.lookup name <;>
      simp only [hkind, hmember, rel_some_some, rel_none_none, not_rel_some_none,
        not_rel_none_some] at hname ⊢
    refine accepts_of_hasType ?_ hname
    rintro rfl q rfl
    exact hfloat name q hkind hmember
  | _ => exact absurd (h.type "object" rfl) (by simp [Json.HasType])

/-- The arguments of a call are passed on exactly if they are valid under the published schema
and within the limit, unless an integer among such arguments is held as a float. -/
theorem callTool_passes_iff_valid {tools : Table String McpTool} {bs : Json → ℕ}
    {id params : Json} {name : String} (hname : params.get "name" = some (.string name))
    (htool : tools.get? name = some tool)
    (hvalue : (params.get "arguments").getD (.object []) = v) :
    let accepted := (∃ schema, (toolJson tool).get "inputSchema" = some schema ∧
      schema.Valid v) ∧ bs v ≤ maxMcpArgumentBytes
    (callTool tools bs id params = .toolCall id name v ↔ accepted) ↔
      (accepted → NoFloats tool v) := by
  intro accepted
  have haccepted : accepted ↔ (inputSchema tool).Valid v ∧ bs v ≤ maxMcpArgumentBytes := by
    simp [accepted, show (toolJson tool).get "inputSchema" = some (inputSchema tool) from rfl]
  have hpasses : callTool tools bs id params = .toolCall id name v ↔
      validateArguments tool v = .ok () ∧ bs v ≤ maxMcpArgumentBytes := by
    simp only [callTool, hname, htool, hvalue]
    split
    · simp_all
    · cases h : validateArguments tool v with
      | error => simp
      | ok => simp [Nat.not_lt.mp ‹_›]
  rw [haccepted, hpasses]
  constructor
  · intro h hvalid
    exact (valid_of_validateArguments (h.mpr hvalid).1).2
  · intro hfloat
    refine ⟨fun h => ⟨(valid_of_validateArguments h.1).1, h.2⟩, fun h => ⟨?_, h.2⟩⟩
    exact validateArguments_of_valid (hfloat h) h.1

def countTool : McpTool := ⟨"count", "count", [("count", .integer)]⟩

def countArguments (n : Number) : Json := .object [("count", .number n)]

/-- Both texts have 13 bytes: `100` and `1.0` as the value of `count`. -/
def callCount (n : Number) : McpDispatch :=
  callTool ((∅ : Table String McpTool).insert "count" countTool) (fun _ => 13) .null
    (.object [("name", .string "count"), ("arguments", countArguments n)])

theorem callTool_passes_integer :
    callCount (.posInt 100) = .toolCall .null "count" (countArguments (.posInt 100)) ∧
      ∃ schema, (toolJson countTool).get "inputSchema" = some schema ∧
        schema.Valid (countArguments (.posInt 100)) := by
  have hpasses : callCount (.posInt 100) = .toolCall .null "count" (countArguments (.posInt 100)) :=
    rfl
  refine ⟨hpasses, (((callTool_passes_iff_valid rfl (Table.get?_insert_self ..) rfl).mpr ?_).mp
    hpasses).1⟩
  intro _ name q _
  change List.lookup name _ ≠ _
  rw [lookup_cons]
  cases name == "count" <;> simp

/-- An integer with a fraction of zero is valid and turned down. -/
theorem integral_float_rejected : (inputSchema countTool).Valid (countArguments (.float 1)) ∧
    callCount (.float 1) = .toolError .null "argument 'count' must be integer" := by
  refine ⟨inputSchema_valid_iff.mpr fun name => ?_, rfl⟩
  rw [countTool, lookup_cons, lookup_cons]
  cases name == "count" with
  | true => exact .some (.inr ⟨rfl, rfl⟩)
  | false => exact .none

end Tysel.Tasks
