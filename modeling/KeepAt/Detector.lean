import KeepAt.KeyedList
import KeepAt.State

namespace KeepAt

structure WatchState where
  lastChecked : Nat
  lastFetched : Nat
  wastedSinceProgress : Nat
  windowsWithoutProgress : Nat
  deriving DecidableEq

structure Trip where
  wastedBytes : Nat
  windows : Nat
  deriving DecidableEq

/-- The watchdog's memory between passes, by hash. -/
abbrev Detector := KeyedList (Prod.fst : String × WatchState → String)

def WatchState.baseline (checked fetched : Nat) : WatchState :=
  { lastChecked := checked, lastFetched := fetched, wastedSinceProgress := 0, windowsWithoutProgress := 0 }

def WatchState.observe (ws : WatchState) (checked fetched discardThreshold minWindows : Nat) :
    WatchState × Option Trip :=
  if checked < ws.lastChecked ∨ fetched < ws.lastFetched then (.baseline checked fetched, none)
  else if checked > ws.lastChecked then (.baseline checked fetched, none)
  else
    let wasted := saturatingAdd ws.wastedSinceProgress (fetched - ws.lastFetched)
    let windows := min (ws.windowsWithoutProgress + 1) u32Max
    ({ lastChecked := checked, lastFetched := fetched, wastedSinceProgress := wasted,
       windowsWithoutProgress := windows },
     if wasted ≥ discardThreshold ∧ windows ≥ max minWindows 1 then
       some { wastedBytes := wasted, windows } else none)

namespace Detector

def observe (d : Detector) (hex : String) (checked fetched discardThreshold minWindows : Nat) :
    Detector × Option Trip :=
  match d.find hex with
  | none => (d.insert (hex, .baseline checked fetched), none)
  | some (_, ws) =>
    let r := ws.observe checked fetched discardThreshold minWindows
    (d.insert (hex, r.1), r.2)

def forget (d : Detector) (hex : String) : Detector := d.erase hex

def retainOnly (d : Detector) (observed : List String) : Detector :=
  d.eraseAll ((d.values.map Prod.fst).filter (fun hex => hex ∉ observed))

end Detector

def week : Duration := 7 * 24 * 3600 * 10 ^ 9

/-- The last instant the calendar represents. -/
def maxUtc : Time := 8210266876799999999999

/-- `checked_add_signed`: no answer past the calendar's end. -/
def checkedAdd (t : Time) (d : Duration) : Option Time :=
  if t + d ≤ maxUtc then some (t + d) else none

def farFuture (now : Time) : Time := (checkedAdd now (520 * week)).getD maxUtc

/-- In a release profile the count of attempts wraps. -/
def nextQuarantineEntry (prev : Option Quarantine) (title : String) (reason : Nat → String) (trip : Trip)
    (now : Time) (cooldown : Duration) (maxRetries : Nat) : Quarantine :=
  let attempts := ((prev.map Quarantine.attempts).getD 0 + 1) % 2 ^ 32
  let indefinite := farFuture now
  { title, reason := reason attempts, quarantinedAt := now,
    cooldownUntil :=
      if maxRetries > 0 ∧ attempts > maxRetries then indefinite
      else (checkedAdd now cooldown).getD indefinite,
    attempts, wastedBytes := trip.wastedBytes }

end KeepAt
