/-
StepTone.Command.Run — one run of the command.

A run reads the profile, puts the flags over it, makes the table and the song, prints
both into memory, has the charts drawn there if they are asked for, and only then writes:
first the listing, then the page of charts. What goes wrong on the way ends the run with a
record in the journal.

* `makeDraft`, `assemble` — everything that a run makes, before it writes.
* `handOutListing`, `handOutChart` — the two writes.
* `generate` — the run after its flags were read.
* `runWith` — the whole run, with the code that the command ends with, for any logger.
* `run` — the run with the logger that flags and environment ask for.
-/
import StepTone.Command.Flags
import StepTone.Command.Surroundings
import StepTone.Listing.Write
import StepTone.Table.Check
import StepTone.Table.Generate

namespace StepTone.Command

open Journal (Fields Level Logger Record Sink)

variable {m : Type → Type} [Monad m]

/-- Writes a record to the journal if it is grave enough. -/
def note (s : Surroundings m) (l : Logger) (record : Record) : m Unit := do
  match l.line? (← s.stamp) record with
  | some line => s.report line
  | none => return ()

/-- A record of a message with values in it, inside a run. -/
def say (s : Surroundings m) (l : Logger) (level : Level) (template : String)
    (values : List Datum) : ExceptT Fault m Unit :=
  ExceptT.lift (note s l (.ofTemplate level template values))

/-- A value that may be a fault, inside a run. -/
def check {α : Type} (value : Except Fault α) : ExceptT Fault m α :=
  ExceptT.mk (pure value)

/-- A write that may go wrong, inside a run. -/
def deliver (target : String) (write : m (Option Fault)) : ExceptT Fault m Unit := do
  match ← ExceptT.lift write with
  | none => return ()
  | some cause => throw (.unwritten target (some cause))

/-- The profile that the flags name, or the usual one. -/
def loadProfile (s : Surroundings m) (l : Logger) (path : String) : ExceptT Fault m Profile := do
  if path = "" then
    return {}
  let contents ← ExceptT.lift (s.read path)
  let profile ← check (Profile.load s.decode path contents)
  say s l .debug "loaded profile %s" [.text path]
  return profile

/-- The constants that the bounds of a table hang on, as fields of a record. -/
def constantFields (c : Firmware.Constants) : Fields :=
  .ofList [("clock_hz", .int c.clockHz), ("move_cycles", .int c.moveCycles),
    ("halt_cycles", .int c.haltCycles), ("freq_loop_moves", .int c.freqLoopMoves)]

/-- The table of a profile, checked. -/
def makeTable (s : Surroundings m) (l : Logger) (p : Profile) : ExceptT Fault m (Table Float) := do
  ExceptT.lift (note s l { level := .debug, message := "timing constants",
                           fields := constantFields p.constants })
  let table ← check ((Table.generate s.scale p.constants p.table).mapError (·.toFault))
  check table.check
  (Listing.summaryLines table.bounds).forM fun line => say s l .debug "%s" [.text line]
  return table

/-- The song of a profile, if it has one. -/
def makeSong (s : Surroundings m) (l : Logger) (p : Profile) (t : Table Float) :
    ExceptT Fault m (Option (Song.Sequence Float)) := do
  match p.song with
  | none => return none
  | some song =>
    let sequence ← check ((Song.compile s.scale t song.scale song.notes).mapError (·.toFault))
    say s l .info "compiled song: %d notes, %d bytes"
      [.int (.ofNat sequence.steps.length), .int (.ofNat sequence.length.toNat)]
    return some sequence

/-- The page of charts, if one is asked for. -/
def drawChart (s : Surroundings m) (f : Flags) (t : Table Float) : ExceptT Fault m String :=
  if f.chart = "" then return "" else ExceptT.mk (Chart.render s.draw t)

/-- A listing in memory, with the table that it shows. -/
structure Draft where
  format : Listing.Format
  table : Table Float
  listing : String

/-- Makes the table and the song, and prints both into memory. -/
def makeDraft (s : Surroundings m) (l : Logger) (f : Flags) : ExceptT Fault m Draft := do
  let profile ← loadProfile s l f.config
  let profile ← check (f.apply profile)
  let table ← makeTable s l profile
  let sequence ← makeSong s l profile table
  let listing ← check (Listing.render profile.output table sequence)
  return { format := profile.output.format, table, listing }

/-- What a run makes before it writes anything. -/
structure Product extends Draft where
  /-- The page of charts, empty if none is asked for. -/
  chart : String

/-- Makes the listing, and then the page of charts. -/
def assemble (s : Surroundings m) (l : Logger) (f : Flags) : ExceptT Fault m Product := do
  let draft ← makeDraft s l f
  let chart ← drawChart s f draft.table
  return { toDraft := draft, chart }

/-- Writes the listing. -/
def handOutListing (s : Surroundings m) (l : Logger) (f : Flags) (p : Product) :
    ExceptT Fault m Unit := do
  if f.out = "" then
    deliver "stdout" (s.print p.listing)
  else
    deliver f.out (s.save f.out p.listing)
    say s l .info "wrote %s table to %s" [.text p.format.name, .text f.out]

/-- Writes the page of charts, if one is asked for. -/
def handOutChart (s : Surroundings m) (l : Logger) (f : Flags) (p : Product) :
    ExceptT Fault m Unit := do
  if f.chart ≠ "" then
    deliver f.chart (s.save f.chart p.chart)
    say s l .info "wrote chart to %s" [.text f.chart]

/-- A run after its flags were read. -/
def generate (s : Surroundings m) (l : Logger) (f : Flags) : ExceptT Fault m Unit := do
  let product ← assemble s l f
  handOutListing s l f product
  handOutChart s l f product

/-- The logger of a run. -/
def logger (s : Surroundings m) (f : Flags) : Logger :=
  let sink : Sink := { name := "stderr", terminal := s.terminal }
  let start : Logger := { component := "delay-table", sink, colour := s.terminal }
  let l := start.configure s.lookup
  if f.logLevel = "" then l else { l with level := .ofName f.logLevel }

/-- A whole run that keeps its journal with the logger that is chosen for its flags. It ends
with 0 after success and after the explanation that was asked for, with 2 after arguments
that are wrong, and with 1 after any other fault. -/
def runWith (s : Surroundings m) (choose : Flags → Logger) (arguments : List String) :
    m UInt32 := do
  match Flags.parse arguments with
  | .error misuse =>
    s.report (misuse.text ++ usage)
    return if misuse = .help then 0 else 2
  | .ok f =>
    match ← generate s (choose f) f with
    | .ok () => return 0
    | .error fault =>
      note s (choose f) { level := .error, message := "generation failed",
                          fields := Fields.withError {} fault.text }
      return 1

/-- A whole run. -/
def run (s : Surroundings m) (arguments : List String) : m UInt32 :=
  runWith s (logger s) arguments

end StepTone.Command
