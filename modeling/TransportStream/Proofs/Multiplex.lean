import TransportStream.Demuxer.Directory
import TransportStream.Proofs.SectionEncoding
import TransportStream.Proofs.StreamDelivery

/-!
# Multiplexes

A multiplex announces elementary streams and then carries them.  It consists of three stretches of
packets: those of the association table, those of the map tables, and those of the streams.  Within
a stretch the packets of different PIDs come in any order, and packets of other PIDs, about which
nothing is known, can come anywhere.

Which stretch a packet belongs to is all that ties the PIDs to each other.  Everything else is said
for one PID at a time: its packets carry certain sections, or are cut from certain PES packets.

* `MuxPacket`, `MuxPacket.on`: the packets of a multiplex, and those on one PID.
* `TablePart`, `PatPart`, `MapPart`: the sections that announce programs and streams.
* `Multiplex`, `Multiplex.IsValid`: a multiplex, and what makes it one.
* `Multiplex.frames`: the frames that have to come out.
-/

namespace TransportStream

/-! ## Packets -/

/-- A packet of a multiplex. -/
inductive MuxPacket where
  /-- A packet that the multiplexer has written. -/
  | planned (p : OutgoingPacket)
  /-- A packet of which only the PID is known. -/
  | foreign (b₁ b₂ b₃ : UInt8) (body : Bytes) (length_body : body.length = 184)

namespace MuxPacket

/-- The stream that the packet belongs to. -/
def pid : MuxPacket → Pid
  | planned p => p.pid
  | foreign b₁ b₂ _ _ _ => .ofBytes b₁ b₂

/-- The bytes of the packet. -/
def bytes : MuxPacket → Bytes
  | planned p => p.bytes
  | foreign b₁ b₂ b₃ body _ => Packet.syncByte :: b₁ :: b₂ :: b₃ :: body

/-- The packet, if it is a planned one on the given PID. -/
def plannedOn? (pid : Pid) : MuxPacket → Option OutgoingPacket
  | planned p => if p.pid = pid then some p else none
  | foreign .. => none

/-- The planned packets on one PID. -/
def on (pid : Pid) (packets : List MuxPacket) : List OutgoingPacket :=
  packets.filterMap (plannedOn? pid)

theorem on_cons_planned (p : OutgoingPacket) (packets : List MuxPacket) :
    on p.pid (planned p :: packets) = p :: on p.pid packets := by
  rw [on, List.filterMap_cons, plannedOn?, if_pos rfl]
  rfl

theorem on_cons_of_ne {p : MuxPacket} {pid : Pid} (h : p.pid ≠ pid) (packets : List MuxPacket) :
    on pid (p :: packets) = on pid packets := by
  have hnone : p.plannedOn? pid = none := by
    cases p with
    | planned p => exact if_neg h
    | foreign => rfl
  rw [on, List.filterMap_cons, hnone]
  rfl

theorem length_bytes (p : MuxPacket) : p.bytes.length = Packet.size := by
  cases p with
  | planned p => exact p.length_bytes
  | foreign b₁ b₂ b₃ body h => simp [bytes, h, Packet.size]

theorem getElem?_bytes (p : MuxPacket) : p.bytes[0]? = some Packet.syncByte := by
  cases p <;> rfl

/-- A packet is decoded as one of its PID. -/
theorem ofBytes?_bytes (p : MuxPacket) :
    ∃ packet, Packet.ofBytes? p.bytes = some packet ∧ packet.pid = p.pid := by
  cases p with
  | planned p => exact ⟨p.packet, p.ofBytes?_bytes, rfl⟩
  | foreign b₁ b₂ b₃ body h =>
    rw [bytes, Packet.ofBytes?.eq_def]
    dsimp only
    rw [dif_pos ⟨rfl, h⟩]
    exact ⟨_, rfl, rfl⟩

end MuxPacket

/-! ## Sections -/

/-- A section that is in force, of a table whose content is encoded in the given way. -/
structure TablePart {α : Type} (kind : TableKind) (encode : α → Bytes) where
  /-- The section. -/
  outgoing : OutgoingSection
  /-- What it says. -/
  content : α
  /-- It belongs to the table. -/
  tableId_eq : outgoing.tableId = kind.tableId
  /-- It is in force. -/
  current : outgoing.table.currentNext = .current
  /-- The content is its body. -/
  body_eq : outgoing.body = encode content
  /-- It is not too long. -/
  length_le : outgoing.length ≤ SectionHeader.maxLength

/-- A section of an association table. -/
abbrev PatPart := TablePart .pat fun entries : List OutgoingProgram =>
  entries.flatMap OutgoingProgram.bytes

/-- A section of a map table. -/
abbrev MapPart := TablePart .pmt OutgoingMap.bytes

namespace TablePart

variable {α : Type} {kind : TableKind} {encode : α → Bytes}

/-- The fields that place the section within its table. -/
def place (part : TablePart kind encode) : TableHeader :=
  part.outgoing.table

/-- The bytes of the section. -/
def bytes (part : TablePart kind encode) : Bytes :=
  part.outgoing.bytes

theorem isSection_bytes (part : TablePart kind encode) : IsSection part.bytes := by
  have hid : part.outgoing.tableId ≠ SectionBuffer.stuffing := by
    rw [part.tableId_eq]
    cases kind <;> decide
  exact part.outgoing.isSection_bytes hid part.length_le

/-- Two sections have the same number in the same table. -/
def SamePlace (a b : TablePart kind encode) : Prop :=
  a.place.tableExtension = b.place.tableExtension ∧ a.place.sectionNumber = b.place.sectionNumber

/-- The payloads of packets carry the given sections, one after the other. -/
def AreCarried (parts : List (TablePart kind encode)) (packets : List OutgoingPacket) : Prop :=
  ∃ cargos, Carries (sectionBytes (parts.map bytes)) cargos ∧
    packets.map (fun p => (p.unitStart, p.payload)) = cargos.map fun c => (c.unitStart, c.payload)

/-- A section can have a payload of its own. -/
theorem areCarried_singleton (part : TablePart kind encode) {p : OutgoingPacket}
    (hstart : p.unitStart = true) (hpayload : p.payload = 0 :: part.bytes) :
    AreCarried [part] [p] := by
  obtain ⟨hcarries, hunit, hcargo⟩ := carries_singleton part.isSection_bytes
  refine ⟨[{ content := fromStart part.bytes }], hcarries, ?_⟩
  rw [List.map_singleton, List.map_singleton, hstart, hpayload, hunit, hcargo]

end TablePart

/-! ## Multiplexes -/

/-- A multiplex. -/
structure Multiplex where
  /-- The sections of the association table. -/
  patParts : List PatPart
  /-- The sections of the map tables that each PID carries. -/
  mapParts : Pid → List MapPart
  /-- The PES packets that each PID carries. -/
  content : Pid → List OutgoingPes
  /-- The packets of the association table. -/
  patPackets : List MuxPacket
  /-- The packets of the map tables. -/
  mapPackets : List MuxPacket
  /-- The packets of the elementary streams. -/
  streamPackets : List MuxPacket

namespace Multiplex

/-- A packet of which the payload leaves a part to an adaptation field.  Its number is taken modulo
sixteen. -/
def shortPacket (unitStart : Bool) (pid : Pid) (count : Nat) (payload : Bytes)
    (h : payload.length < 183) : OutgoingPacket where
  unitStart
  pid
  counter := ⟨⟨count % 16, Nat.mod_lt count (by decide)⟩⟩
  adaptation := some (0 :: List.replicate (182 - payload.length) 0xff)
  payload
  length_eq := by
    simp only [Option.elim_some, List.length_cons, List.length_replicate]
    omega

variable (m : Multiplex)

/-- All packets. -/
def packets : List MuxPacket :=
  m.patPackets ++ (m.mapPackets ++ m.streamPackets)

/-- The bytes of the multiplex. -/
def bytes : Bytes :=
  (m.packets.map MuxPacket.bytes).flatten

/-- A program is announced whose map table the PID carries. -/
def IsMapPid (pid : Pid) : Prop :=
  ∃ part ∈ m.patParts, ∃ e ∈ part.content, e.number ≠ 0 ∧ e.pid = pid

/-- The map table of a program that is announced lists the stream. -/
def Lists (e : OutgoingStream) : Prop :=
  ∃ pid, m.IsMapPid pid ∧ ∃ part ∈ m.mapParts pid, e ∈ part.content.streams

/-- Something is announced that the PID carries. -/
def Announces (pid : Pid) : Prop :=
  pid = .pat ∨ m.IsMapPid pid ∨ ∃ e, m.Lists e ∧ e.pid = pid

/-- The frames of a stream that is listed. -/
def frames (e : OutgoingStream) : List Frame :=
  elementaryFrames e.pid e.entry.codec (OutgoingPes.contents {} (m.content e.pid))

/-- The packets belong on certain PIDs, are not damaged, or are on PIDs without announcement. -/
def Belong (packets : List MuxPacket) (here : Pid → Prop) : Prop :=
  ∀ p ∈ packets, match p with
    | .planned p => here p.pid ∧ p.transportError = false
    | .foreign b₁ b₂ _ _ _ => ¬ m.Announces (.ofBytes b₁ b₂)

/-- What makes a multiplex one. -/
structure IsValid : Prop where
  /-- No map table is announced on the PID of the association table. -/
  map_ne_pat : ¬ m.IsMapPid .pat
  /-- No stream is listed on a PID that carries tables. -/
  stream_ne_table : ∀ e, m.Lists e → e.pid ≠ .pat ∧ ¬ m.IsMapPid e.pid
  /-- Different streams are on different PIDs: entries for the same PID agree on the codec. -/
  codec_eq : ∀ e e', m.Lists e → m.Lists e' → e.pid = e'.pid → e.entry.codec = e'.entry.codec
  /-- The sections of the association table have places of their own. -/
  pat_places : m.patParts.Pairwise fun a b => ¬ a.SamePlace b
  /-- So have the sections of map tables on each PID. -/
  map_places : ∀ pid, m.IsMapPid pid → (m.mapParts pid).Pairwise fun a b => ¬ a.SamePlace b
  /-- The first packets are those of the association table. -/
  pat_belong : m.Belong m.patPackets fun pid => pid = .pat
  /-- Then come those of the map tables. -/
  map_belong : m.Belong m.mapPackets m.IsMapPid
  /-- The last ones are those of the streams. -/
  stream_belong : m.Belong m.streamPackets fun pid => ∃ e, m.Lists e ∧ e.pid = pid
  /-- The association table is carried. -/
  pat_carried : TablePart.AreCarried m.patParts (MuxPacket.on .pat m.patPackets)
  /-- The map tables are carried. -/
  map_carried : ∀ pid, m.IsMapPid pid →
    TablePart.AreCarried (m.mapParts pid) (MuxPacket.on pid m.mapPackets)
  /-- The PES packets of each stream are cut into the payloads of its packets. -/
  stream_cut : ∀ e, m.Lists e →
    CutsInto ((m.content e.pid).map OutgoingPes.bytes) (MuxPacket.on e.pid m.streamPackets)
  /-- No payload is empty. -/
  payload_ne_nil : ∀ e, m.Lists e → ∀ p ∈ MuxPacket.on e.pid m.streamPackets, p.payload ≠ []
  /-- The packets of each stream are numbered. -/
  stream_counts : ∀ e, m.Lists e → CountsFrom none (MuxPacket.on e.pid m.streamPackets)

end Multiplex

end TransportStream
