import Tysel.Verification.Engine.CrashReplay
import Mathlib.Data.Rat.Defs

/-! A boundary that executes its callback hands out the value itself, and a boundary that finds the
recorded event hands out what the JSON text of the value reads back as. -/

namespace Tysel.Engine

open Tysel.Durable Machine

open DurableSession (record checked stored found)

/-! ## Values -/

inductive JsNumber where
  | finite (value : ℚ)
  | negativeZero
  | nan
  | infinite (negative : Bool)

/-- The values that `JSON.stringify` takes without an exception. -/
inductive JsValue where
  /-- Also a function or a symbol. -/
  | undefined
  | null
  | boolean (b : Bool)
  | number (n : JsNumber)
  | string (text : String)
  | array (items : List JsValue)
  /-- An object with its enumerable members; a `plain` one has nothing else and no other
  prototype. -/
  | object (plain : Bool) (members : List (String × JsValue))
  /-- A date, a boxed primitive or an object with `toJSON`: the value is written in its place. -/
  | replaced (value : JsValue)

namespace JsValue

mutual

/-- `JSON.parse(JSON.stringify(value))`, where a text is written. -/
def readBack : JsValue → Option JsValue
  | undefined => none
  | null => some null
  | boolean b => some (boolean b)
  | number (.finite value) => some (number (.finite value))
  | number .negativeZero => some (number (.finite 0))
  | number .nan | number (.infinite _) => some null
  | string text => some (string text)
  | array items => some (array (readItems items))
  | object _ members => some (object true (readMembers members))
  | replaced value => readBack value

def readItems : List JsValue → List JsValue
  | [] => []
  | value :: rest => (readBack value).getD null :: readItems rest

def readMembers : List (String × JsValue) → List (String × JsValue)
  | [] => []
  | (name, value) :: rest =>
    match readBack value with
    | none => readMembers rest
    | some value => (name, value) :: readMembers rest

end

/-- Finite numbers but -0, texts, arrays and plain objects, at every depth. -/
inductive Kept : JsValue → Prop
  | null : Kept null
  | boolean (b : Bool) : Kept (boolean b)
  | number (value : ℚ) : Kept (number (.finite value))
  | string (text : String) : Kept (string text)
  | array {items : List JsValue} (h : ∀ value ∈ items, Kept value) : Kept (array items)
  | object {members : List (String × JsValue)} (h : ∀ m ∈ members, Kept m.2) :
      Kept (object true members)

mutual

theorem readBack_kept : ∀ {value r : JsValue}, value.readBack = some r → r.Kept
  | null, _, rfl => .null
  | boolean b, _, rfl => .boolean b
  | number (.finite value), _, rfl => .number value
  | number .negativeZero, _, rfl => .number 0
  | number .nan, _, rfl | number (.infinite _), _, rfl => .null
  | string text, _, rfl => .string text
  | array items, _, rfl => .array (readItems_kept items)
  | object _ members, _, rfl => .object (readMembers_kept members)
  | replaced value, _, h => @readBack_kept value _ h

theorem readItems_kept : ∀ items : List JsValue, ∀ value ∈ readItems items, value.Kept
  | [], _, h => by cases h
  | value :: rest, _, h => by
    rcases List.mem_cons.mp h with rfl | h
    · cases hread : value.readBack with
      | none => exact .null
      | some => exact readBack_kept hread
    · exact readItems_kept rest _ h

theorem readMembers_kept : ∀ members : List (String × JsValue), ∀ m ∈ readMembers members, m.2.Kept
  | [], _, h => by cases h
  | (name, value) :: rest, _, h => by
    unfold readMembers at h
    cases hread : value.readBack with
    | none =>
      rw [hread] at h
      exact readMembers_kept rest _ h
    | some =>
      rw [hread] at h
      rcases List.mem_cons.mp h with rfl | h
      · exact readBack_kept hread
      · exact readMembers_kept rest _ h

end

theorem readItems_of {items : List JsValue} (h : ∀ value ∈ items, value.readBack = some value) :
    readItems items = items := by
  induction items with
  | nil => rfl
  | cons value rest ih =>
    obtain ⟨hvalue, hrest⟩ := List.forall_mem_cons.mp h
    rw [readItems, hvalue, ih hrest]
    rfl

theorem readMembers_of {members : List (String × JsValue)}
    (h : ∀ m ∈ members, m.2.readBack = some m.2) : readMembers members = members := by
  induction members with
  | nil => rfl
  | cons member rest ih =>
    obtain ⟨hmember, hrest⟩ := List.forall_mem_cons.mp h
    rw [readMembers, hmember, ih hrest]

theorem Kept.readBack {value : JsValue} (h : value.Kept) : value.readBack = some value := by
  induction h with
  | array _ ih => rw [JsValue.readBack, readItems_of ih]
  | object _ ih => rw [JsValue.readBack, readMembers_of ih]
  | _ => rfl

/-- `{ ok: true, value }`, once with the value and once with what is left of it. -/
def outcome (value : Option JsValue) : JsValue :=
  object true (("ok", boolean true) :: (value.map fun value => ("value", value)).toList)

end JsValue

variable {V P J : Type} {S : Crates J} {js : Js V} {q : Program V P} {x : Runner V P J}
  {db : Db} {ev : TaskEvent J} {text : String}

/-- The first moment of the year 1970, as `new Date(0)`. -/
def epoch : JsValue := .replaced (.string "1970-01-01T00:00:00.000Z")

end Tysel.Engine
