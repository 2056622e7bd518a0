import TransportStream.Gather
import TransportStream.Notice
import TransportStream.Program.Association
import TransportStream.Program.Map

/-!
# What the tables have announced

The program table collects the programs and the elementary streams that sections have announced.
Entries are only ever added.  A stream that has been bound to a codec stays bound to it, because
data is already being cut into frames accordingly, so a later section that contradicts the binding
is noted and not followed.

## One use for each PID

A PID carries either tables or an elementary stream.  PID 0 carries the association table from the
start; any other PID is used for what it is announced as first, and an announcement for the other
purpose is noted and not followed.
-/

namespace TransportStream

/-- A program that the association table has announced. -/
structure Program where
  /-- Its number. -/
  number : Nat
  /-- The PID of its map table. -/
  pid : Pid
  deriving DecidableEq

/-- An elementary stream that a map table has announced. -/
structure StreamBinding where
  /-- The PID that carries it. -/
  pid : Pid
  /-- How it is coded, as the map table says. -/
  streamType : StreamType
  /-- The codec that follows from it. -/
  codec : Codec
  /-- The program that announced it. -/
  program : Nat
  /-- Its language, if it has one. -/
  language : Option String
  deriving DecidableEq

namespace StreamBinding

/-- The binding of a stream that a program lists. -/
def ofInfo (program : Nat) (s : StreamInfo) : StreamBinding where
  pid := s.pid
  streamType := s.streamType
  codec := s.codec
  program := program
  language := s.language

/-- How the stream is cut into frames. -/
def role (b : StreamBinding) : FramingRole :=
  b.codec.role

end StreamBinding

/-- What an entry of a map table comes to. -/
inductive Announcement where
  /-- The stream is new. -/
  | new (binding : StreamBinding)
  /-- The stream is known, with the same codec. -/
  | repeated
  /-- The stream is known, and bound to the codec `kept`. -/
  | conflicting (binding : StreamBinding) (kept : Codec)
  /-- The PID of the stream carries tables. -/
  | onTablePid (binding : StreamBinding)
  deriving DecidableEq

namespace Announcement

/-- The binding that has to be added. -/
def added? : Announcement → Option StreamBinding
  | new binding => some binding
  | _ => none

/-- What is notable about an entry of the map table received on the given PID. -/
def notice? (pmtPid : Pid) : Announcement → Option Notice
  | new b => some (.streamFound b.program b.streamType b.pid b.codec)
  | repeated => none
  | conflicting b kept => some (.codecConflict b.pid b.codec b.program kept)
  | onTablePid b => some (.streamOnTablePid b.program pmtPid b.pid)

end Announcement

/-- All programs and elementary streams announced so far. -/
structure ProgramTable where
  /-- The programs, in the order of their discovery. -/
  programs : List Program := []
  /-- The streams, by PID. -/
  streams : SortedMap Pid StreamBinding := .empty
  deriving DecidableEq

namespace ProgramTable

/-- True of the PIDs that carry the map table of a program. -/
def isPmtPid (t : ProgramTable) (pid : Pid) : Bool :=
  t.programs.any (·.pid = pid)

/-- True of the PIDs that carry an elementary stream. -/
def isElementaryPid (t : ProgramTable) (pid : Pid) : Bool :=
  t.streams.contains pid

/-- The stream that a PID carries. -/
def binding? (t : ProgramTable) (pid : Pid) : Option StreamBinding :=
  t.streams.get? pid

/-- Follows one entry of the association table. -/
def addProgram (t : ProgramTable) (entry : PatEntry) : ProgramTable × List Notice :=
  match entry with
  | .network pid => (t, [.networkTableIgnored pid])
  | .program number pid =>
    if { number, pid } ∈ t.programs then (t, [])
    else if pid = .pat ∨ t.isElementaryPid pid then (t, [.programOnUsedPid number pid])
    else ({ t with programs := t.programs ++ [{ number, pid }] }, [.programFound number pid])

/-- Follows a section of the association table. -/
def applyPat (t : ProgramTable) (pat : PatSection) : ProgramTable × List Notice :=
  gather addProgram t pat.entries

/-- Judges a stream that an entry of a map table announces. -/
def judge (t : ProgramTable) (binding : StreamBinding) : Announcement :=
  if t.isPmtPid binding.pid ∨ binding.pid = .pat then .onTablePid binding
  else
    match t.binding? binding.pid with
    | some known =>
      if known.codec = binding.codec then .repeated else .conflicting binding known.codec
    | none => .new binding

/-- Follows one entry of a map table. -/
def addStream (t : ProgramTable) (binding : StreamBinding) : ProgramTable × List Announcement :=
  let announcement := t.judge binding
  match announcement.added? with
  | some added => ({ t with streams := t.streams.insert added.pid added }, [announcement])
  | none => (t, [announcement])

/-- What following a section of a map table gives. -/
structure Additions where
  /-- The table afterwards. -/
  table : ProgramTable
  /-- The streams that are new, in the order of their listing. -/
  added : List StreamBinding
  /-- What was notable. -/
  notices : List Notice
  deriving DecidableEq

/-- Follows a section of the map table of a program, received on the given PID. -/
def applyPmt (t : ProgramTable) (pmtPid : Pid) (program : Nat) (pmt : PmtSection) : Additions :=
  let (streams, malformed) := pmt.streams
  let (table, announcements) := gather addStream t (streams.map (StreamBinding.ofInfo program))
  { table
    added := announcements.filterMap Announcement.added?
    notices :=
      announcements.filterMap (Announcement.notice? pmtPid) ++
        malformed.toList.map .malformedStreamEntry }

end ProgramTable

end TransportStream
