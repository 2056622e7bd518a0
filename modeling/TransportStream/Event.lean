import TransportStream.Notice
import TransportStream.Packet

/-!
# Events

Whoever runs a demultiplexer sees packets before they are processed, frames when they are complete,
and notices in between.  Their order is part of what is seen, so they are one list of events.
-/

namespace TransportStream

/-- Something that whoever runs a demultiplexer gets to see. -/
inductive Event where
  /-- A packet, before it is processed. -/
  | packet (p : Packet)
  /-- A complete frame. -/
  | frame (f : Frame)
  /-- Something notable. -/
  | notice (n : Notice)
  deriving DecidableEq

namespace Event

/-- Notices, as events. -/
def ofNotices (notices : List Notice) : List Event :=
  notices.map notice

/-- Frames, as events.  Each frame is noted before it is handed out. -/
def ofFrames (frames : List Frame) : List Event :=
  frames.flatMap fun f => [notice (.frameReady f), frame f]

/-- The frame that an event hands out. -/
def frame? : Event → Option Frame
  | frame f => some f
  | _ => none

/-- There are no frames among notices. -/
theorem filterMap_frame?_ofNotices (notices : List Notice) :
    (ofNotices notices).filterMap frame? = [] := by
  rw [ofNotices, List.filterMap_map]
  exact List.filterMap_eq_nil_iff.mpr fun n _ => rfl

/-- The frames among events are those that were handed out. -/
theorem filterMap_frame?_ofFrames (frames : List Frame) :
    (ofFrames frames).filterMap frame? = frames := by
  induction frames with
  | nil => rfl
  | cons f rest ih =>
    rw [show ofFrames (f :: rest) = notice (.frameReady f) :: frame f :: ofFrames rest from rfl]
    simp only [List.filterMap_cons, frame?, ih]

theorem frame_mem_iff {f : Frame} {events : List Event} :
    frame f ∈ events ↔ f ∈ events.filterMap frame? := by
  rw [List.mem_filterMap]
  constructor
  · intro h
    exact ⟨frame f, h, rfl⟩
  · rintro ⟨event, hmem, hframe⟩
    cases event with
    | frame f' =>
      obtain rfl := Option.some.inj hframe
      exact hmem
    | packet p => cases hframe
    | notice n => cases hframe

/-- Neither notices nor frames show a packet. -/
theorem packet_notMem_ofNotices (p : Packet) (notices : List Notice) :
    packet p ∉ ofNotices notices := by
  intro h
  obtain ⟨n, -, heq⟩ := List.mem_map.mp h
  cases heq

theorem packet_notMem_ofFrames (p : Packet) (frames : List Frame) :
    packet p ∉ ofFrames frames := by
  intro h
  obtain ⟨f, -, hf⟩ := List.mem_flatMap.mp h
  simp at hf

end Event

end TransportStream
