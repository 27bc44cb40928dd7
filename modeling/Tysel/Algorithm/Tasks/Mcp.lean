import Tysel.Algorithm.Tasks.Ingress
import Mathlib.Data.Rat.Defs

/-! The schemas that a server publishes for its tools, and the calls that it passes on. -/

namespace Tysel.Tasks

def maxMcpArgumentBytes : ℕ := 32 * 1024

/-- `serde_json::Number`: a text that is no 64-bit integer becomes a float. -/
inductive Number where
  | posInt (n : ℕ)
  | negInt (n : ℤ)
  | float (value : ℚ)

inductive Json where
  | null
  | bool (b : Bool)
  | number (n : Number)
  | string (s : String)
  | array (items : List Json)
  | object (fields : List (String × Json))

namespace Json

def get (value : Json) (name : String) : Option Json :=
  match value with
  | .object fields => fields.lookup name
  | _ => none

def asI64 : Json → Option ℤ
  | .number (.posInt n) => if n < 2 ^ 63 then some n else none
  | .number (.negInt n) => some n
  | _ => none

def asU64 : Json → Option ℕ
  | .number (.posInt n) => some n
  | _ => none

end Json

def McpValueType.schemaType : McpValueType → String
  | .string => "string"
  | .number => "number"
  | .integer => "integer"
  | .boolean => "boolean"
  | .object => "object"
  | .array => "array"

def McpValueType.accepts : McpValueType → Json → Bool
  | .integer, value => value.asI64.isSome || value.asU64.isSome
  | .string, .string _ | .number, .number _ | .boolean, .bool _ | .object, .object _
  | .array, .array _ => true
  | _, _ => false

def inputSchema (tool : McpTool) : Json :=
  .object [("$schema", .string "https://json-schema.org/draft/2020-12/schema"),
    ("type", .string "object"),
    ("properties", .object (tool.input.map fun field =>
      (field.1, .object [("type", .string field.2.schemaType)]))),
    ("required", .array (tool.input.map (.string ·.1))), ("additionalProperties", .bool false)]

def toolJson (tool : McpTool) : Json :=
  .object [("name", .string tool.name), ("description", .string tool.description),
    ("inputSchema", inputSchema tool)]

def validateArgument (tool : McpTool) (fields : List (String × Json)) (name : String) :
    Except String Unit :=
  match fields.lookup name, tool.input.lookup name with
  | some value, some kind =>
    reject (kind.accepts value = false) s!"argument '{name}' must be {kind.schemaType}"
  | _, _ => .error s!"missing required argument '{name}'"

def validateArguments (tool : McpTool) : Json → Except String Unit
  | .object fields => do
    (tool.input.map Prod.fst).forM (validateArgument tool fields)
    match fields.find? fun field => (tool.input.lookup field.1).isNone with
    | some field => .error s!"unknown argument '{field.1}'"
    | none => .ok ()
  | _ => .error "tool arguments must be an object"

/-- A response with an error, a tool result with `isError`, or a call to pass on. -/
inductive McpDispatch where
  | error (id : Json) (code : ℤ) (message : String)
  | toolError (id : Json) (message : String)
  | toolCall (id : Json) (name : String) (arguments : Json)

/-- `bytes` is the length of the text that `serde_json` writes. -/
def callTool (tools : Table String McpTool) (bytes : Json → ℕ) (id params : Json) : McpDispatch :=
  match params.get "name" with
  | some (.string name) =>
    match tools.get? name with
    | none => .error id (-32602) s!"Unknown tool: {name}"
    | some tool =>
      let arguments := (params.get "arguments").getD (.object [])
      if maxMcpArgumentBytes < bytes arguments then
        .toolError id s!"tool arguments exceed {maxMcpArgumentBytes} bytes"
      else
        match validateArguments tool arguments with
        | .error message => .toolError id message
        | .ok _ => .toolCall id name arguments
  | _ => .error id (-32602) "Missing tool name"

end Tysel.Tasks
