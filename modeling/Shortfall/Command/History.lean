import Shortfall.Command.Session
import Shortfall.Report.Runs

/-!
# Showing past runs
-/

namespace Shortfall.Command

/-- Whether a run is asked for. -/
def isWanted (options : Options) (event : Audit.Event) : Bool :=
  let command := options.text "command"
  (command.isEmpty || Text.equalFold event.command command)
    && (!options.switch "failed" || !event.error.isEmpty)

/-- The last of the items, as many as asked for; without a positive number, all of them. -/
def lastItems {α : Type} (n : Int) (items : List α) : List α :=
  if 0 < n && n < items.length then items.drop (items.length - n.toNat) else items

/-- Shows past runs, or counts over all of them. Of a log that cannot be read to its end nothing is
shown. -/
def runLog {m : Type → Type} [Monad m] [Files m] (settings : Settings) (options : Options) :
    m Outcome := do
  let reading ← Audit.load settings.audit.path
  match reading.error? with
  | some error => return .failed (.auditLog error)
  | none =>
      let events := reading.events
      if events.isEmpty then
        return { output := Report.lines ["No audit log entries found."] }
      if options.switch "summary" then return { output := Report.runSummary events }
      let wanted := events.filter (isWanted options)
      return { output := Report.runReport (lastItems (options.number "last") wanted) }

end Shortfall.Command
