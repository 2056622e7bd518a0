import TransportStream.Section.Header

/-!
# Repeated sections

Tables are sent again and again so that a receiver can join at any time.  A `VersionFilter` tells
the sections of one table that have not been seen in the current version from repetitions.  A
change of the version number, to whatever other number, makes every section new again.
-/

namespace TransportStream

/-- The sections of one table that have been seen in its current version. -/
structure VersionFilter where
  /-- The current version, once there is one. -/
  version : Option Nat := none
  /-- The numbers of the sections seen in that version. -/
  seen : List UInt8 := []
  deriving DecidableEq

namespace VersionFilter

/-- The section numbers that count as seen when a section of the given version arrives. -/
def seenIn (f : VersionFilter) (version : Nat) : List UInt8 :=
  if f.version = some version then f.seen else []

/-- True if a section has not been seen in its version. -/
def isNew (f : VersionFilter) (h : TableHeader) : Bool :=
  !(f.seenIn h.version).contains h.sectionNumber

/-- The filter after a section, which from now on counts as seen. -/
def record (f : VersionFilter) (h : TableHeader) : VersionFilter where
  version := some h.version
  seen := if f.isNew h then h.sectionNumber :: f.seenIn h.version else f.seenIn h.version

end VersionFilter

end TransportStream
