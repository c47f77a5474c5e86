import Dbr2.Lib.GoPath

/-! Which notifications a channel wants (`internal/notify/match.go`).

A channel has a least severity and a list of event patterns: an exact event type, a wildcard
such as `backup.*`, or `*`. An empty list wants every event. -/
namespace Dbr2.Notify
open Lib.GoPath (Text hasPrefix)

def severityInfo : Text := "info".toList
def severityWarning : Text := "warning".toList
def severityCritical : Text := "critical".toList

/-- Info, warning, critical, in this order; -1 if unknown. -/
def severityRank (s : Text) : Int :=
  if s = severityInfo then 0
  else if s = severityWarning then 1
  else if s = severityCritical then 2
  else -1

def matchPattern (eventType p : Text) : Bool :=
  if p = ['*'] then true
  else if ['.', '*'].isSuffixOf p then hasPrefix eventType p.dropLast
  else p = eventType

def matchEvent (patterns : List Text) (eventType : Text) : Bool :=
  patterns.isEmpty || patterns.any (matchPattern eventType)

def matchesFilters (patterns : List Text) (minSeverity eventType severity : Text) : Bool :=
  decide (severityRank minSeverity ≤ severityRank severity) && matchEvent patterns eventType

example : matchEvent ["backup.*".toList] "backup.failed".toList = true ∧
    matchEvent ["backup.*".toList] "backup".toList = false := by decide

end Dbr2.Notify
