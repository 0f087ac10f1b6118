import Mathlib.Order.Basic
import Mathlib.Algebra.Order.Ring.Int
import Vingilot.Core
import Vingilot.Lib.Chars

/-! # When a schedule fires (`buzz-workflow/src/lib.rs`, `schema.rs`, `executor.rs`)

Times are whole nanoseconds since the epoch, as `chrono` keeps them. The cron parser is a
parameter. A parsed schedule is known by its instants.
-/

namespace Vingilot.Workflow

def nanos (secs : Int) : Int := secs * 1000000000

/-- A parsed cron expression. `after` gives the first of the instants that follow a time. -/
structure Schedule where
  instant : Int → Prop
  after : Int → Option Int
  after_some : ∀ t u, after t = some u →
    instant u ∧ t < u ∧ ∀ v, instant v → t < v → u ≤ v
  after_none : ∀ t, after t = none → ∀ v, instant v → ¬ t < v

/-- `str::parse::<cron::Schedule>`. -/
structure CronParser where
  parse : String → Option Schedule

def normalizeCron (expr : String) : String :=
  match Text.fieldCount false expr.toList with
  | 5 => "0 " ++ expr ++ " *"
  | 6 => expr ++ " *"
  | _ => expr

def Schedule.firstIn (sched : Schedule) (now windowSecs : Int) : Option Int :=
  (sched.after (now - nanos windowSecs)).filter fun t => t ≤ now

def cronFireInstant (cron : CronParser) (expr : String) (now windowSecs : Int) : Option Int :=
  match cron.parse (normalizeCron expr) with
  | some sched => sched.firstIn now windowSecs
  | none => none

/-! ## Intervals -/

def scaled (s : List Char) (duration : String) (unit : Nat) : Except String Nat :=
  match Text.parseU64 (Text.trim s) with
  | none => .error s!"invalid duration: {duration}"
  | some n => if n * unit < 2 ^ 64 then .ok (n * unit) else .error s!"duration overflow: {duration}"

def parseDurationSecs (text : String) : Except String Nat :=
  let chars := Text.trim text.toList
  let duration := String.ofList chars
  match Text.stripSuffix chars 'h' with
  | some n => scaled n duration 3600
  | none =>
    match Text.stripSuffix chars 'm' with
    | some n => scaled n duration 60
    | none =>
      match Text.stripSuffix chars 's' with
      | some n => scaled n duration 1
      | none =>
        match Text.parseU64 chars with
        | some n => .ok n
        | none => .error s!"invalid duration: {duration}"

/-- `DateTime::timestamp`: whole seconds, rounded down. -/
def timestamp (t : Int) : Int := t / 1000000000

/-- `DateTime::from_timestamp(secs, 0)`. The years run from -262143 to 262142. -/
def fromTimestamp (secs : Int) : Option Int :=
  if -8334601228800 ≤ secs ∧ secs ≤ 8210266876799 then some (nanos secs) else none

def asI64 (n : Nat) : Int := Int.bmod n (2 ^ 64)

def bucketStart (secs : Int) (now : Int) : Int := timestamp now / secs * secs

def intervalFireInstant (dur : String) (now : Int) : Option Int :=
  match parseDurationSecs dur with
  | .ok intervalSecs =>
    if 0 < intervalSecs then fromTimestamp (bucketStart (asI64 intervalSecs) now) else none
  | .error _ => none

/-- `(now - last).num_seconds().unsigned_abs()`. -/
def elapsedSecs (now last : Int) : Nat := ((now - last).tdiv 1000000000).natAbs

def intervalShouldFire (dur : String) (lastFired : Option Int) (now : Int) : Bool :=
  match parseDurationSecs dur with
  | .ok intervalSecs => intervalSecs ≤ elapsedSecs now (lastFired.getD now)
  | .error _ => false

end Vingilot.Workflow
