import ProtoBuild.Text.Digit

/-!
# Durations in words

Times are milliseconds since the epoch and durations are milliseconds, both
numbers of sixty-four bits.  A duration below one second is written in
milliseconds, one below ten seconds with one decimal, and a longer one in the
two largest units that fit (`Duration.format`).
-/

namespace ProtoBuild
namespace Duration

/-- Seconds in their largest unit; minutes and hours carry the next smaller unit
when it is not zero. -/
def formatSeconds (seconds : UInt64) : String :=
  let s := seconds.toNat
  if s < 60 then toString s ++ "s"
  else if s < 3600 then
    toString (s / 60) ++ "m" ++ (if s % 60 = 0 then "" else toString (s % 60) ++ "s")
  else if s < 86400 then
    let minutes := s % 3600 / 60
    toString (s / 3600) ++ "h" ++ (if minutes = 0 then "" else toString minutes ++ "m")
  else toString (s / 86400) ++ "d"

/-- A duration given in milliseconds. -/
def format (millis : UInt64) : String :=
  let ms := millis.toNat
  if ms < 1000 then toString ms ++ "ms"
  else if ms < 10000 then toString (ms / 1000) ++ "." ++ toString (ms % 1000 / 100) ++ "s"
  else formatSeconds (millis / 1000)

/-- The time between two readings, where both are known; never negative. -/
def between (start stop : Option UInt64) : Option UInt64 :=
  match start, stop with
  | some a, some b => some (Text.monus b a)
  | _, _ => none

end Duration
end ProtoBuild
