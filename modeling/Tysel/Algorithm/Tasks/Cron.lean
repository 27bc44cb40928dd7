import Tysel.Shared.Chars
import Tysel.Algorithm.Tasks.Broker

/-! Five-field UTC cron expressions with lists, ranges and steps, as `task_ingress.rs` parses and
matches them. A parsed number is at most 255. -/

namespace Tysel.Tasks

open Text (isWhitespace splitOnce)

def minuteMs : ℕ := 60000

inductive TaskIngressError where
  | invalidCron (message : String)
  | duplicateQueueConsumer (queue first second : String)
  | unknownQueue (queue : String)
  | unknownMcpTool (tool : String)
  | invalidTaskIdSeed
  | invalidApplicationId
  | invalidTimeout
  | taskIdExhausted
  | clock
  | broker (error : TaskRpcBrokerError)
  | mcp (message : String)
  deriving DecidableEq

structure Field where
  minimum : ℕ
  allowed : List Bool
  wildcard : Bool
  deriving DecidableEq

def digits : List Char → Option ℕ
  | [] => none
  | cs => if cs.all Char.isDigit then some (Nat.ofDigitChars 10 cs 0) else none

/-- `u8::from_str`: decimal digits after an optional plus sign. -/
def parseU8 (source : List Char) : Option ℕ :=
  (digits (match source with
    | '+' :: cs => cs
    | cs => cs)).filter (· < 256)

def parseNumber (source : List Char) (minimum maximum : ℕ) : Except TaskIngressError ℕ :=
  match parseU8 source with
  | none => .error (.invalidCron ("invalid cron value '" ++ String.ofList source ++ "'"))
  | some value =>
    if minimum ≤ value ∧ value ≤ maximum then .ok value
    else
      .error (.invalidCron (s!"cron value {value} is outside {minimum}..={maximum}"))

namespace Field

def component (source : List Char) (minimum maximum : ℕ) :
    Except TaskIngressError (List Char × ℕ) :=
  match splitOnce '/' source with
  | some (range, step) => do
      let step ← parseNumber step minimum maximum
      reject (step = 0) (.invalidCron "cron step must be positive")
      return (range, step)
  | none => .ok (source, 1)

def bounds (range : List Char) (minimum maximum : ℕ) : Except TaskIngressError (ℕ × ℕ) :=
  if range = ['*'] then .ok (minimum, maximum)
  else
    match splitOnce '-' range with
    | some (first, last) => do
        let first ← parseNumber first minimum maximum
        let last ← parseNumber last minimum maximum
        reject (last < first) (.invalidCron "cron range is reversed")
        return (first, last)
    | none => do
        let value ← parseNumber range minimum maximum
        return (value, value)

def steps (first last step : ℕ) : List ℕ := List.range' first ((last - first) / step + 1) step

def mark (minimum maximum : ℕ) (allowed : List Bool) (source : List Char) :
    Except TaskIngressError (List Bool) := do
  let (range, step) ← component source minimum maximum
  let (first, last) ← bounds range minimum maximum
  return (steps first last step).foldl (fun allowed value => allowed.set value true) allowed

def parse (source : List Char) (minimum maximum : ℕ) : Except TaskIngressError Field := do
  reject (source = []) (.invalidCron "empty cron field")
  let allowed ← (source.splitOn ',').foldlM (mark minimum maximum)
    (List.replicate (maximum + 1) false)
  reject (allowed.any id = false) (.invalidCron "cron field selects no values")
  return ⟨minimum, allowed, source.head? = some '*'⟩

def contains (field : Field) (value : ℕ) : Bool :=
  decide (field.minimum ≤ value) && field.allowed.getD value false

end Field

structure CronExpression where
  source : String
  minute : Field
  hour : Field
  day : Field
  month : Field
  weekday : Field
  deriving DecidableEq

def splitWhitespace (source : List Char) : List (List Char) :=
  (source.splitOnP isWhitespace).filter (· ≠ [])

/-- The calendar date of a day, with day zero at 1970-01-01; divisions truncate. -/
def civilFromDays (days : ℤ) : ℤ × ℕ × ℕ :=
  let z := days + 719468
  let era := (if 0 ≤ z then z else z - 146096).tdiv 146097
  let dayOfEra := z - era * 146097
  let yearOfEra :=
    (dayOfEra - dayOfEra.tdiv 1460 + dayOfEra.tdiv 36524 - dayOfEra.tdiv 146096).tdiv 365
  let year := yearOfEra + era * 400
  let dayOfYear := dayOfEra - (365 * yearOfEra + yearOfEra.tdiv 4 - yearOfEra.tdiv 100)
  let monthPrime := (5 * dayOfYear + 2).tdiv 153
  let day := dayOfYear - (153 * monthPrime + 2).tdiv 5 + 1
  let month := monthPrime + if monthPrime < 10 then 3 else -9
  (Int.bmod (year + if month ≤ 2 then 1 else 0) (2 ^ 32), (month % 256).toNat, (day % 256).toNat)

namespace CronExpression

def parse (source : String) : Except TaskIngressError CronExpression := do
  reject (128 < source.utf8ByteSize) (.invalidCron "cron expression is too long")
  match splitWhitespace source.toList with
  | [minute, hour, day, month, weekday] => do
      let minute ← Field.parse minute 0 59
      let hour ← Field.parse hour 0 23
      let day ← Field.parse day 1 31
      let month ← Field.parse month 1 12
      let weekday ← Field.parse weekday 0 7
      return ⟨source, minute, hour, day, month, weekday⟩
  | _ => .error (.invalidCron "cron expression must contain five fields")

/-- Day of month and day of week are alternatives when both are restricted. -/
def matchesDay (e : CronExpression) (day weekday : ℕ) : Bool :=
  let dayMatch := e.day.contains day
  let weekdayMatch := e.weekday.contains weekday || (weekday = 0 && e.weekday.contains 7)
  if e.day.wildcard || e.weekday.wildcard then dayMatch && weekdayMatch
  else dayMatch || weekdayMatch

def matchesUnixMs (e : CronExpression) (unixMs : ℕ) : Bool :=
  let minute := unixMs / minuteMs
  let days := minute / (24 * 60)
  let minuteOfDay := minute % (24 * 60)
  let date := civilFromDays days
  e.minute.contains (minuteOfDay % 60) && e.hour.contains (minuteOfDay / 60) &&
    e.month.contains date.2.1 && e.matchesDay date.2.2 ((days + 4) % 7)

end CronExpression

end Tysel.Tasks
