import Timeline.Calendar.Written
import Timeline.Text.Quoted
import Timeline.Value.Property

/-! # Errors of scales

Why a scale cannot be built or edited, and what is said about it. -/
namespace Timeline

inductive ScaleError
  /-- A value of an edit is no time. -/
  | invalidTime (index : Nat) (text : String)
  /-- A leaf would end before it starts. -/
  | boundaryViolation (index : Nat) (start stop : Moment)
  | missingEnd
  | noScaleItems
  | primeDateMap (source : String) (cause : EvalError)
  | outOfRange (months : Int)
  deriving DecidableEq

namespace ScaleError

def message : ScaleError → String
  | invalidTime index text =>
    "value #" ++ Nat.repr index ++ " is not a valid time: " ++ Text.quote text
  | boundaryViolation index start stop =>
    "scale item " ++ Nat.repr index ++ " ends at " ++ stop.text ++ " before it starts at " ++
      start.text
  | missingEnd => "the last scale item has no end time"
  | noScaleItems => "the template defines no scale items"
  | primeDateMap source _ => "prime date map `" ++ source ++ "` failed"
  | outOfRange months =>
    "shifting by " ++ Int.repr months ++ " months leaves the supported calendar range"

def code : ScaleError → String
  | invalidTime .. => "roadmap::scale::invalid_time"
  | boundaryViolation .. => "roadmap::scale::boundary_violation"
  | missingEnd => "roadmap::scale::missing_end"
  | noScaleItems => "roadmap::scale::no_scale_items"
  | primeDateMap .. => "roadmap::scale::prime_date_map"
  | outOfRange _ => "roadmap::scale::out_of_range"

def help? : ScaleError → Option String
  | invalidTime .. => some "use RFC 3339 or a date such as 2021-01-10 / 2021/01/10"
  | _ => none

end ScaleError

end Timeline
