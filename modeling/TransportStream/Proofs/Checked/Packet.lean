import TransportStream.Proofs.Checked.Access

/-!
# Packets, by index

A packet is the 188 bytes that it consists of, and each question about it looks at the bytes that
answer it.  Whoever says that bytes are a packet relies on their number and on the first of them
(`newPacket`); whoever asks gets an answer (`tryPacket`).
-/

namespace TransportStream

namespace Checked

/-- Relies on it that bytes are a packet. -/
def newPacket (buf : Bytes) : Option Unit := do
  check (buf.length = Packet.size)
  let sync ← buf[0]?
  check (sync = Packet.syncByte)

/-- True if bytes are a packet. -/
def tryPacket (buf : Bytes) : Option Bool :=
  if buf.length = Packet.size then do
    let sync ← buf[0]?
    return sync == Packet.syncByte
  else some false

/-- The flag of packets that were damaged on the way. -/
def transportError (buf : Bytes) : Option Bool := do
  let b ← buf[1]?
  return bitFlag b 7

/-- The flag of packets in which a unit starts. -/
def unitStart (buf : Bytes) : Option Bool := do
  let b ← buf[1]?
  return bitFlag b 6

/-- The PID. -/
def pid (buf : Bytes) : Option Pid := do
  let hi ← buf[1]?
  let lo ← buf[2]?
  return .ofBytes hi lo

/-- What the body holds. -/
def control (buf : Bytes) : Option AdaptationControl := do
  let b ← buf[3]?
  return .ofField (bitField b 4 2)

/-- The continuity counter, which has to be less than sixteen. -/
def counter (buf : Bytes) : Option ContinuityCounter := do
  let b ← buf[3]?
  ContinuityCounter.ofNat? (bitField b 0 4)

/-- The length of the adaptation field. -/
def fieldLength (buf : Bytes) : Option Nat := do
  let b ← buf[4]?
  return b.toNat

/-- The discontinuity indicator. -/
def discontinuity (buf : Bytes) : Option Bool := do
  let control ← control buf
  if control.hasAdaptationField then
    let length ← fieldLength buf
    if 0 < length then
      let flags ← buf[5]?
      return bitFlag flags 7
    else return false
  else return false

/-- The payload. -/
def payload (buf : Bytes) : Option (Except PacketError (Option Bytes)) := do
  match ← control buf with
  | .reserved | .adaptationFieldOnly => return .ok none
  | .payloadOnly => return .ok (some (← from? buf 4))
  | .adaptationFieldAndPayload =>
    let length ← fieldLength buf
    if buf.length < 5 + length then
      return .error (.adaptationFieldTooLong length (← sub? Packet.size 5))
    else if 5 + length = buf.length then return .ok none
    else return .ok (some (← from? buf (5 + length)))

/-- The packet as it is shown before it is processed. -/
def shown (buf : Bytes) : Option Packet := do
  let transportError ← transportError buf
  let unitStart ← unitStart buf
  let pid ← pid buf
  let control ← control buf
  let counter ← counter buf
  let body ← from? buf 4
  if h : body.length = 184 then
    return { transportError, unitStart, pid, control, counter, body, length_body := h }
  else none

/-! ## Nothing fails -/

/-- The bytes of a packet, by its fields. -/
structure Reads (buf : Bytes) (p : Packet) : Prop where
  /-- There are four bytes before the body, and they say what the packet says. -/
  exists_eq : ∃ b₁ b₂ b₃, buf = Packet.syncByte :: b₁ :: b₂ :: b₃ :: p.body ∧
    p.transportError = bitFlag b₁ 7 ∧ p.unitStart = bitFlag b₁ 6 ∧ p.pid = .ofBytes b₁ b₂ ∧
    p.control = .ofField (bitField b₃ 4 2) ∧
    p.counter = ⟨⟨bitField b₃ 0 4, bitField_lt b₃ 0 4⟩⟩

variable {buf : Bytes} {p : Packet}

theorem reads_of_ofBytes? (h : Packet.ofBytes? buf = some p) : Reads buf p := by
  unfold Packet.ofBytes? at h
  split at h
  · next sync b₁ b₂ b₃ body =>
    split at h
    · next hfields =>
      obtain ⟨rfl, hbody⟩ := hfields
      cases h
      exact ⟨b₁, b₂, b₃, rfl, rfl, rfl, rfl, rfl, rfl⟩
    · cases h
  · cases h

theorem Reads.length (h : Reads buf p) : buf.length = Packet.size := by
  obtain ⟨b₁, b₂, b₃, rfl, -⟩ := h
  simp [p.length_body, Packet.size]

theorem Reads.sync (h : Reads buf p) : buf[0]? = some Packet.syncByte := by
  obtain ⟨b₁, b₂, b₃, rfl, -⟩ := h
  rfl

theorem Reads.newPacket (h : Reads buf p) : newPacket buf = some () := by
  have hlength := h.length
  obtain ⟨b₁, b₂, b₃, rfl, -⟩ := h
  rw [Checked.newPacket, check_of hlength]
  simp [check]

/-- Whether bytes are a packet is always decided. -/
theorem tryPacket_eq (buf : Bytes) : tryPacket buf = some (Packet.ofBytes? buf).isSome := by
  unfold tryPacket
  by_cases hlength : buf.length = Packet.size
  · rw [if_pos hlength]
    match buf with
    | sync :: b₁ :: b₂ :: b₃ :: body =>
      have hbody : body.length = 184 := by
        simp only [List.length_cons, Packet.size] at hlength
        omega
      by_cases hsync : sync = Packet.syncByte <;> simp [Packet.ofBytes?, hbody, hsync]
    | [] => cases hlength
    | [_] => cases hlength
    | [_, _] => cases hlength
    | [_, _, _] => cases hlength
  · rw [if_neg hlength]
    cases hp : Packet.ofBytes? buf with
    | none => rfl
    | some p => exact absurd (reads_of_ofBytes? hp).length hlength

/-- Bytes are a packet by their number and the first of them. -/
theorem exists_ofBytes? (hlength : buf.length = Packet.size)
    (hsync : buf[0]? = some Packet.syncByte) : ∃ p, Packet.ofBytes? buf = some p := by
  have h := tryPacket_eq buf
  rw [tryPacket, if_pos hlength, hsync] at h
  exact Option.isSome_iff_exists.mp (by simpa using h.symm)

theorem Reads.transportError (h : Reads buf p) : transportError buf = some p.transportError := by
  obtain ⟨b₁, b₂, b₃, rfl, herror, -⟩ := h
  rw [herror]
  rfl

theorem Reads.unitStart (h : Reads buf p) : unitStart buf = some p.unitStart := by
  obtain ⟨b₁, b₂, b₃, rfl, -, hstart, -⟩ := h
  rw [hstart]
  rfl

theorem Reads.pid (h : Reads buf p) : pid buf = some p.pid := by
  obtain ⟨b₁, b₂, b₃, rfl, -, -, hpid, -⟩ := h
  rw [hpid]
  rfl

theorem Reads.control (h : Reads buf p) : control buf = some p.control := by
  obtain ⟨b₁, b₂, b₃, rfl, -, -, -, hcontrol, -⟩ := h
  rw [hcontrol]
  rfl

theorem Reads.counter (h : Reads buf p) : counter buf = some p.counter := by
  obtain ⟨b₁, b₂, b₃, rfl, -, -, -, -, hcounter⟩ := h
  rw [hcounter]
  exact dif_pos (bitField_lt b₃ 0 4)

theorem Reads.body (h : Reads buf p) : from? buf 4 = some p.body := by
  have hlength := h.length
  obtain ⟨b₁, b₂, b₃, rfl, -⟩ := h
  rw [from?_of_le (by rw [hlength]; decide)]
  rfl

/-- The first byte of the body is the length of the adaptation field, if there is one. -/
theorem Reads.fieldLength (h : Reads buf p) :
    ∃ length rest, p.body = length :: rest ∧ rest.length = 183 ∧
      buf[5]? = rest[0]? ∧ fieldLength buf = some length.toNat := by
  obtain ⟨b₁, b₂, b₃, rfl, -⟩ := h
  have hlength := p.length_body
  match hbody : p.body with
  | [] =>
    rw [hbody] at hlength
    cases hlength
  | length :: rest =>
    rw [hbody] at hlength
    exact ⟨length, rest, rfl, Nat.succ.inj hlength, rfl, rfl⟩

theorem Reads.discontinuity (h : Reads buf p) : discontinuity buf = some p.discontinuity := by
  obtain ⟨length, rest, hbody, hrest, hflags, hfield⟩ := h.fieldLength
  unfold Checked.discontinuity Packet.discontinuity Packet.adaptationField?
  rw [h.control, hfield, hflags, hbody]
  match rest, hrest with
  | flags :: more, _ =>
    cases hfieldThere : p.control.hasAdaptationField with
    | false => simp [hfieldThere]
    | true => by_cases hpos : 0 < length.toNat <;> simp [hfieldThere, hpos]

theorem Reads.payload (h : Reads buf p) : payload buf = some p.payload := by
  obtain ⟨length, rest, hbody, hrest, -, hfield⟩ := h.fieldLength
  have hlength := h.length
  unfold Checked.payload Packet.payload Packet.adaptationField?
  rw [h.control]
  cases hcontrol : p.control with
  | reserved => rfl
  | adaptationFieldOnly => rfl
  | payloadOnly => simp [h.body]
  | adaptationFieldAndPayload =>
    have hbytes : buf.drop (5 + length.toNat) = rest.drop length.toNat := by
      obtain ⟨b₁, b₂, b₃, rfl, -⟩ := h
      rw [hbody, Nat.add_comm]
      rfl
    rw [hfield, hbody, hlength]
    simp only [AdaptationControl.hasAdaptationField, if_true, hrest, Packet.size]
    by_cases hlong : 183 < length.toNat
    · have hlong' : 188 < 5 + length.toNat := by omega
      simp [hlong, hlong', sub?]
    · have hshort : ¬ 188 < 5 + length.toNat := by omega
      by_cases hfull : length.toNat = 183
      · simp [hfull]
      · have hpart : ¬ 5 + length.toNat = 188 := by omega
        have hslice : from? buf (5 + length.toNat) = some (rest.drop length.toNat) := by
          rw [from?_of_le (by rw [hlength, Packet.size]; omega), hbytes]
        simp [hlong, hshort, hfull, hpart, hslice]

theorem Reads.shown (h : Reads buf p) : shown buf = some p := by
  unfold Checked.shown
  rw [h.transportError, h.unitStart, h.pid, h.control, h.counter, h.body]
  simp [p.length_body]

end Checked

end TransportStream
