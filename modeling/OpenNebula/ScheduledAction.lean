/-
# Scheduled actions (`src/sam/ScheduledAction.cc`)

A scheduled action has a `TIME` and can repeat on some `DAYS`: days of the week, the month or the year, or
every so many hours.  `parse` reads the attributes of a new action or of an update, where what is missing
stays as it was; `is_due` says whether the action has to run, and `next_action` sets the `TIME` of the next
run.

Conventions of the embedding:

* A time is an integer, the seconds since the epoch.  `localtime` is a parameter, the fields of the local
  date that the code reads; the clock is an argument, and it does not move during one call.
* A failed `parse` gives the error; the object is thrown away then.  An accepted one can have an error text
  too (`END_VALUE` is missing).
* `ends_in_range` makes a local date of `END_VALUE` and a time of it again, which is the same time; the only
  one that it takes for an error is -1.
* The loop of `next_action` for hours has a bound on its rounds; `none` means that it was not enough.
* The identifiers, the message of an action and its text are left out.
-/
import OpenNebula.Attribute
import OpenNebula.TextList
import OpenNebula.Transition

open TextNumber

/-- The fields of `struct tm` that are used. -/
structure LocalTime where
  wday : ℤ
  mday : ℤ
  yday : ℤ
  mon : ℤ
  year : ℤ

/-- `ScheduledAction::Repeat`. -/
inductive Repeat where
  | NONE
  | WEEKLY
  | MONTHLY
  | YEARLY
  | HOURLY
  deriving DecidableEq

/-- `ScheduledAction::EndOn`. -/
inductive EndOn where
  | END_NONE
  | NEVER
  | TIMES
  | DATE
  deriving DecidableEq

/-- The numbers from `NONE` to `HOURLY`. -/
def Repeat.ofInt (n : ℤ) : Option Repeat :=
  if n = -1 then some .NONE
  else if n = 0 then some .WEEKLY
  else if n = 1 then some .MONTHLY
  else if n = 2 then some .YEARLY
  else if n = 3 then some .HOURLY
  else none

/-- The numbers from `END_NONE` to `DATE`. -/
def EndOn.ofInt (n : ℤ) : Option EndOn :=
  if n = -1 then some .END_NONE
  else if n = 0 then some .NEVER
  else if n = 1 then some .TIMES
  else if n = 2 then some .DATE
  else none

/-- The types of objects, as `parse` tells them apart. -/
inductive SchedType where
  | VM
  | BACKUPJOB
  | other
  deriving DecidableEq

/-- `ScheduledAction`. -/
structure ScheduledAction where
  type : SchedType
  action : Text
  args : Text
  time : ℤ
  repeatType : Repeat
  days : Text
  endType : EndOn
  endValue : ℤ
  done : ℤ
  warning : ℤ
  deriving DecidableEq

namespace ScheduledAction

/-- The constructor. -/
def new (type : SchedType) : ScheduledAction where
  type := type
  action := []
  args := []
  time := -1
  repeatType := .NONE
  days := []
  endType := .END_NONE
  endValue := -1
  done := -1
  warning := 0

/-- `ScheduledAction::VM_ACTIONS`. -/
def vmActions : List Text :=
  ["terminate", "terminate-hard", "undeploy", "undeploy-hard", "hold", "release", "stop", "suspend",
    "resume", "reboot", "reboot-hard", "poweroff", "poweroff-hard", "snapshot-create",
    "snapshot-revert", "snapshot-delete", "disk-snapshot-create", "disk-snapshot-revert",
    "disk-snapshot-delete", "backup"].map String.toList

/-! ## Reading the attributes -/

/-- `vector_value(name, value)` for a 64-bit number: the value is written also when the text goes on behind
the number, or has none. -/
def vectorTime (va : AttributeMap) (name : Text) (value : ℤ) : ℤ × Bool :=
  match va.lookup name with
  | none => (value, false)
  | some t =>
    if skipWs t = [] then (value, false)
    else
      let e := getSigned 10 64 t
      (e.value, e.ok && e.rest.isEmpty)

/-- `ScheduledAction::parse_time`. -/
def parseTime (type : SchedType) (strTime : Text) (origin : ℤ) : ℤ :=
  if type = .BACKUPJOB ∧ strTime.head? = some '+' then -1
  else
    let (strTime, origin) :=
      if strTime.head? = some '+' then (strTime.drop 1, origin) else (strTime, 0)
    let e := getSigned 10 64 strTime
    if e.ok && e.rest.isEmpty then e.value + origin else -1

/-- The first and the last number that `DAYS` can have, and the error. -/
def dayRange : Repeat → ℤ × ℤ × Text
  | .WEEKLY => (0, 6, "Days in a week have to be in [0,6] range".toList)
  | .MONTHLY => (1, 31, "Days in a month have to be in [1,31] range".toList)
  | .YEARLY => (0, 365, "Days in a year have to be in [0,365] range".toList)
  | .HOURLY => (1, 167, "Hours have to be in [0,168] range".toList)
  | .NONE => (0, -1, [])

/-- `ScheduledAction::days_in_range`: the error, if there is one. -/
def daysInRange (repeatType : Repeat) (days : Text) : Option Text :=
  match splitUnique days with
  | [] => some "Scheduled Action repeat set, but DAYS are empty".toList
  | fday :: rest =>
    let (first, last, error) := dayRange repeatType
    if fday < first ∨ last < (fday :: rest).getLast (List.cons_ne_nil _ _) ∨
        (repeatType = .HOURLY ∧ rest ≠ []) then some error
    else none

/-- `ScheduledAction::ends_in_range`: the error, if there is one. -/
def endsInRange (endType : EndOn) (endValue : ℤ) : Option Text :=
  if endType = .TIMES ∧ endValue < 0 then
    some "Error parsing END_VALUE, times has to be greater or equal to 0".toList
  else if endType = .DATE ∧ endValue = -1 then
    some "Error parsing END_VALUE, wrong format for date.".toList
  else none

/-- The `ACTION`. -/
def parseAction (s : ScheduledAction) (va : AttributeMap) : Except Text ScheduledAction :=
  let s' : Except Text ScheduledAction :=
    match s.type with
    | .BACKUPJOB => .ok { s with action := "backup".toList }
    | .VM =>
      match va.lookup "ACTION".toList with
      | none => .ok s
      | some action =>
        if action.isEmpty then .ok s
        else if action ∉ vmActions then .error (action ++ " is not supported.".toList)
        else .ok { s with action := action }
    | .other => .error "Not supported object type".toList
  s'.bind fun s =>
    if s.action.isEmpty then .error "No ACTION in template for Scheduled Action.".toList else .ok s

/-- The `TIME` and the `WARNING`. -/
def parseTimes (s : ScheduledAction) (va : AttributeMap) (origin : ℤ) :
    Except Text ScheduledAction :=
  let strTime := va.vectorValue "TIME".toList
  let time := if strTime.isEmpty then s.time else parseTime s.type strTime origin
  if time = -1 then
    .error ("Unable to parse the time value or value is empty: ".toList ++ strTime)
  else
    let strWarning := va.vectorValue "WARNING".toList
    let warning := if strWarning.isEmpty then s.warning else parseTime s.type strWarning origin
    if warning = -1 then .error ("Unable to parse the warning value: ".toList ++ strWarning)
    else .ok { s with time := time, warning := warning }

/-- The `REPEAT`; without a number it stays as it was. -/
def parseRepeat (s : ScheduledAction) (va : AttributeMap) : Except Text Repeat :=
  match va.vectorInt "REPEAT".toList with
  | none => .ok s.repeatType
  | some n =>
    match Repeat.ofInt n with
    | none => .error ("Wrong REPEAT value: ".toList ++ intText n)
    | some repeatType => .ok repeatType

/-- The `DAYS`: they are checked only when they are there. -/
def parseDays (repeatType : Repeat) (days : Text) (va : AttributeMap) : Except Text Text :=
  if repeatType = .NONE then .ok []
  else
    match va.lookup "DAYS".toList with
    | some days =>
      match daysInRange repeatType days with
      | some error => .error error
      | none => .ok days
    | none => if days.isEmpty then .error "Repeat set, but DAYS are empty".toList else .ok days

/-- The `END_TYPE`; without a number it stays as it was. -/
def parseEndType (s : ScheduledAction) (va : AttributeMap) : Except Text EndOn :=
  match va.vectorInt "END_TYPE".toList with
  | none => .ok s.endType
  | some n =>
    match EndOn.ofInt n with
    | none => .error ("Wrong END_TYPE value: ".toList ++ intText n)
    | some endType => .ok endType

/-- The `END_VALUE`, with the error text of an accepted one. -/
def parseEndValue (endType : EndOn) (endValue : ℤ) (va : AttributeMap) : Except Text (ℤ × Text) :=
  if endType = .END_NONE ∨ endType = .NEVER then .ok (-1, [])
  else
    let (endValue, found) := vectorTime va "END_VALUE".toList endValue
    if found then
      match endsInRange endType endValue with
      | some error => .error error
      | none => .ok (endValue, [])
    else if endValue < 0 then .ok (endValue, "END_TYPE set, but END_VALUE is empty".toList)
    else .ok (endValue, [])

/-- `ScheduledAction::parse`: the action and the error text when it returns 0, or the error. -/
def parse (s : ScheduledAction) (va : AttributeMap) (origin : ℤ) :
    Except Text (ScheduledAction × Text) := do
  let s ← s.parseAction va
  let s ← s.parseTimes va origin
  let repeatType ← s.parseRepeat va
  let days ← parseDays repeatType s.days va
  let endType ← s.parseEndType va
  let (endValue, error) ← parseEndValue endType s.endValue va
  return ({ s with
    repeatType := repeatType
    days := days
    endType := endType
    endValue := endValue
    args := (va.lookup "ARGS".toList).getD s.args }, error)

/-! ## Running the action -/

/-- `ScheduledAction::is_due`. -/
def isDue (s : ScheduledAction) (now : ℤ) : Bool :=
  let hasEnded := match s.endType with
    | .END_NONE => false
    | .NEVER => false
    | .TIMES => decide (s.endValue ≤ 0)
    | .DATE => decide (s.endValue < now)
  if hasEnded then false
  else if 0 < s.done ∧ s.time ≤ s.done then false
  else decide (s.time < now)

/-- `ScheduledAction::days_in_period`. -/
def daysInPeriod (repeatType : Repeat) (month year : ℤ) : ℤ :=
  let year := year + 1900
  let leap := year % 4 = 0 ∧ (year % 100 ≠ 0 ∨ year % 400 = 0)
  match repeatType with
  | .WEEKLY => 7
  | .MONTHLY =>
    ([31, 28, 31, 30, 31, 30, 31, 31, 30, 31, 30, 31] : List ℤ).getD month.toNat 0 +
      if leap ∧ month = 1 then 1 else 0
  | .YEARLY => 365 + if leap then 1 else 0
  | .HOURLY => 0
  | .NONE => 0

/-- The day of the period, as `next_action` counts it. -/
def currentDay : Repeat → LocalTime → ℤ
  | .WEEKLY, tm => tm.wday
  | .MONTHLY, tm => tm.mday
  | .YEARLY, tm => tm.yday
  | .HOURLY, _ => 0
  | .NONE, _ => 0

/-- The days from the current one to the next one of the set. -/
def delta (first : ℤ) (rest : List ℤ) (cday pdays : ℤ) : ℤ :=
  if cday < first then first - cday
  else if (first :: rest).getLast (List.cons_ne_nil _ _) ≤ cday then pdays - cday + first
  else ((first :: rest).find? (cday < ·)).getD 0 - cday

/-- The loop for hours. -/
def hourLoop (step current : ℤ) : ℕ → ℤ → Option ℤ
  | 0, _ => none
  | fuel + 1, time => if time + step < current then hourLoop step current fuel (time + step)
    else some (time + step)

/-- The `TIME` of the next run. -/
def nextTime (localtime : ℤ → LocalTime) (fuel : ℕ) (s : ScheduledAction) (first : ℤ)
    (rest : List ℤ) (current : ℤ) : Option ℤ :=
  if s.repeatType = .HOURLY then hourLoop (first * 3600) current fuel s.time
  else
    let tm := localtime current
    let pdays := daysInPeriod s.repeatType tm.mon tm.year
    some (s.time + delta first rest (currentDay s.repeatType tm) pdays * 24 * 3600)

/-- One run less is left, and the warning is reset for days. -/
def moveTo (s : ScheduledAction) (time : ℤ) : ScheduledAction :=
  { s with
    endValue := if s.endType = .TIMES then s.endValue - 1 else s.endValue
    time := time
    warning := if s.repeatType = .HOURLY then s.warning else 0 }

/-- `ScheduledAction::next_action`. -/
def nextAction (localtime : ℤ → LocalTime) (fuel : ℕ) (s : ScheduledAction) (current : ℤ) :
    Option (ℤ × ScheduledAction) :=
  let s := { s with done := current }
  if s.repeatType = .NONE then some (-1, s)
  else
    match splitUnique s.days with
    | [] => some (-1, s)
    | first :: rest =>
      if s.endType = .TIMES ∧ s.endValue ≤ 0 then some (-1, s)
      else if s.endType = .DATE ∧ s.endValue < current then some (-1, s)
      else (nextTime localtime fuel s first rest current).map fun time => (time, s.moveTo time)

/-- `next_action` returns. -/
def Returns (localtime : ℤ → LocalTime) (s : ScheduledAction) (current : ℤ) : Prop :=
  ∃ fuel, (nextAction localtime fuel s current).isSome

/-- A call to an action. -/
inductive Call where
  | parse (va : AttributeMap) (origin : ℤ)
  | next (fuel : ℕ) (current : ℤ)

/-- What a call makes of an action: a `parse` that returns 0, or a `next_action` that returns. -/
def step (localtime : ℤ → LocalTime) (s : ScheduledAction) : Call → Option ScheduledAction
  | .parse va origin => (s.parse va origin).toOption.map Prod.fst
  | .next fuel current => (nextAction localtime fuel s current).map Prod.snd

end ScheduledAction
