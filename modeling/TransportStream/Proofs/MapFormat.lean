import Mathlib.Data.List.GetD
import TransportStream.Program.Table
import TransportStream.Proofs.SectionEncoding

/-!
# The format of a map table

The body of a map table holds two lists whose lengths are given, one in the other: the descriptors
of the program and, behind them, the streams, each with descriptors of its own.  The first list has
to be whole.  The second is read as far as it goes: every entry that is read is one that could have
been written, nothing is left out between them, and what is left at the end does not begin another
one.

* `OutgoingStream.exists_of_ofBytes`: an entry that is read could have been written.
* `StreamInfo.exists_ofBytes_iff`: what begins a whole entry is read as one, and nothing else.
* `StreamInfo.exists_readItems`: the entries that are read make up the list, up to the remainder.
* `PmtSection.notices_applyPmt`: what is noted of a remainder is noted once.
* `PmtSection.decodes_whole_entries`: all of it, and that a body is read as it was written.
-/

namespace TransportStream

/-! ## Entries -/

namespace StreamInfo

variable {bytes rest : Bytes} {s : StreamInfo}

/-- The number of bytes of descriptors, as the header of an entry gives it. -/
def infoLength (bytes : Bytes) : Nat :=
  wordField 4 (bytes.getD 3 0) (bytes.getD 4 0)

/-- A whole entry stands at the front of a byte string: the header is there, and so are the
descriptors. -/
def Begins (bytes : Bytes) : Prop :=
  5 ≤ bytes.length ∧ 5 + infoLength bytes ≤ bytes.length

instance : DecidablePred Begins :=
  fun _ => inferInstanceAs (Decidable (_ ∧ _))

/-- What is missing of the entry at the front of a byte string. -/
def entryError (bytes : Bytes) : SectionError :=
  if bytes.length < 5 then .notEnoughData .streamInfo 5 bytes.length
  else .notEnoughData .esInfo (5 + infoLength bytes) bytes.length

theorem exists_ofBytes_of_begins (h : Begins bytes) : ∃ r, ofBytes bytes = .ok r := by
  obtain ⟨hheader, hinfo⟩ := h
  revert hinfo
  match bytes, hheader with
  | b₀ :: b₁ :: b₂ :: b₃ :: b₄ :: rest, _ =>
    intro hinfo
    have hle : wordField 4 b₃ b₄ ≤ rest.length := by
      simp only [infoLength, List.getD_cons_succ, List.getD_cons_zero, List.length_cons] at hinfo
      omega
    rw [ofBytes, splitFront?_of_le hle]
    exact ⟨_, rfl⟩

theorem ofBytes_of_not_begins (h : ¬ Begins bytes) : ofBytes bytes = .error (entryError bytes) := by
  match bytes, h with
  | [], _ | [_], _ | [_, _], _ | [_, _, _], _ | [_, _, _, _], _ => rfl
  | b₀ :: b₁ :: b₂ :: b₃ :: b₄ :: rest, h =>
    have hlength : (b₀ :: b₁ :: b₂ :: b₃ :: b₄ :: rest).length = 5 + rest.length :=
      Nat.add_comm rest.length 5
    have hfield : infoLength (b₀ :: b₁ :: b₂ :: b₃ :: b₄ :: rest) = wordField 4 b₃ b₄ := rfl
    rw [Begins, hlength, hfield] at h
    rw [ofBytes, splitFront?_eq_none_iff.mpr (by omega), entryError, hlength, hfield,
      if_neg (by omega)]
    rfl

/-- What begins a whole entry is read as one, and nothing else. -/
theorem exists_ofBytes_iff : (∃ r, ofBytes bytes = .ok r) ↔ Begins bytes := by
  refine ⟨fun ⟨r, hread⟩ => Decidable.byContradiction fun h => ?_, exists_ofBytes_of_begins⟩
  rw [ofBytes_of_not_begins h] at hread
  cases hread

theorem ofBytes_of_read {tail : { rest : Bytes // rest.length < bytes.length }}
    (h : read bytes = some (s, tail)) : ofBytes bytes = .ok (s, tail.1) := by
  unfold read at h
  split at h
  · cases h
  · next hread =>
    cases h
    exact hread

theorem not_begins_of_read (h : read bytes = none) : ¬ Begins bytes := by
  intro hbegins
  obtain ⟨⟨s, rest⟩, hread⟩ := exists_ofBytes_of_begins hbegins
  unfold read at h
  split at h
  · next hfail =>
    rw [hread] at hfail
    cases hfail
  · cases h

/-- What is noted about a remainder is what is missing of an entry. -/
theorem remainderError?_of_not_begins (h : ¬ Begins rest) :
    remainderError? rest = if rest = [] then none else some (entryError rest) := by
  rw [remainderError?, ofBytes_of_not_begins h]
  simp only [List.isEmpty_iff]

end StreamInfo

namespace OutgoingStream

/-- **Nothing is lost.**  An entry that is read could have been written. -/
theorem exists_of_ofBytes {data rest : Bytes} {s : StreamInfo}
    (h : StreamInfo.ofBytes data = .ok (s, rest)) :
    ∃ e : OutgoingStream, e.entry = s ∧ data = e.bytes ++ rest := by
  unfold StreamInfo.ofBytes at h
  split at h
  · next b₀ b₁ b₂ b₃ b₄ tail =>
    split at h
    · cases h
    · next info after hsplit =>
      cases h
      obtain ⟨rfl, hinfo⟩ := splitFront?_eq_some_iff.mp hsplit
      have hb₁ := b₁.toNat_lt
      have hb₃ := b₃.toNat_lt
      let e : OutgoingStream := {
        streamType := ⟨b₀⟩
        reserved := ⟨b₁.toNat / 2 ^ 5, by omega⟩
        pid := .ofBytes b₁ b₂
        reservedInfo := ⟨b₃.toNat / 2 ^ 4, by omega⟩
        info
        length_info_lt := hinfo ▸ wordField_lt 4 b₃ b₄ }
      refine ⟨e, rfl, ?_⟩
      have hpid : UInt8.ofNat (b₁.toNat / 2 ^ 5 * 32 + wordField 5 b₁ b₂ / 256) = b₁ :=
        ofNat_wordField_high 5 b₁ b₂
      simp only [bytes, e, Pid.ofBytes, hinfo, hpid, ofNat_wordField_low, ofNat_wordField_high,
        List.cons_append, List.nil_append]
  · cases h

end OutgoingStream

namespace StreamInfo

/-- **The list is read from its front, without gaps.** -/
theorem exists_readItems (data : Bytes) :
    ∃ entries : List OutgoingStream,
      data = entries.flatMap OutgoingStream.bytes ++ (readItems read data).2 ∧
        (readItems read data).1 = entries.map OutgoingStream.entry :=
  TransportStream.exists_readItems
    (fun h => OutgoingStream.exists_of_ofBytes (ofBytes_of_read h)) data

end StreamInfo

/-! ## Bodies -/

/-- True of the notice that a list of streams breaks off. -/
def Notice.isMalformedEntry : Notice → Bool
  | malformedStreamEntry _ => true
  | _ => false

namespace PmtSection

variable {body : Bytes} {p : PmtSection}

/-- The number of bytes of descriptors of the program, as the body gives it. -/
def programInfoLength (body : Bytes) : Nat :=
  wordField 4 (body.getD 2 0) (body.getD 3 0)

/-- What is noted while the streams are gone over. -/
def notices (p : PmtSection) : List Notice :=
  p.streams.2.toList.map .malformedStreamEntry

theorem ofBytes_of_le (hheader : 4 ≤ body.length)
    (hinfo : 4 + programInfoLength body ≤ body.length) :
    ofBytes body = .ok {
      pcrPid := .ofBytes (body.getD 0 0) (body.getD 1 0)
      programInfo := (body.drop 4).take (programInfoLength body)
      streamInfo := body.drop (4 + programInfoLength body) } := by
  revert hinfo
  match body, hheader with
  | b₀ :: b₁ :: b₂ :: b₃ :: rest, _ =>
    intro hinfo
    have hfield : programInfoLength (b₀ :: b₁ :: b₂ :: b₃ :: rest) = wordField 4 b₂ b₃ := rfl
    have hlength : (b₀ :: b₁ :: b₂ :: b₃ :: rest).length = 4 + rest.length :=
      Nat.add_comm rest.length 4
    have hdrop : (b₀ :: b₁ :: b₂ :: b₃ :: rest).drop (4 + wordField 4 b₂ b₃) =
        rest.drop (wordField 4 b₂ b₃) := by
      rw [← List.drop_drop]
      rfl
    rw [hfield, hlength] at hinfo
    rw [ofBytes, splitFront?_of_le (Nat.le_of_add_le_add_left hinfo), hfield, hdrop]
    rfl

/-- The bodies in which the descriptors of the program are whole are accepted, and no others. -/
theorem exists_ofBytes_iff :
    (∃ p, ofBytes body = .ok p) ↔
      4 ≤ body.length ∧ 4 + programInfoLength body ≤ body.length := by
  constructor
  · rintro ⟨p, hread⟩
    unfold ofBytes at hread
    split at hread
    · next b₀ b₁ b₂ b₃ rest =>
      split at hread
      · cases hread
      · next hsplit =>
        have hlength := length_of_splitFront? hsplit
        have hfield : programInfoLength (b₀ :: b₁ :: b₂ :: b₃ :: rest) = wordField 4 b₂ b₃ := rfl
        simp only [hfield, List.length_cons]
        omega
    · cases hread
  · rintro ⟨hheader, hinfo⟩
    exact ⟨_, ofBytes_of_le hheader hinfo⟩

theorem streamInfo_of_ofBytes (h : ofBytes body = .ok p) :
    p.streamInfo = body.drop (4 + programInfoLength body) := by
  obtain ⟨hheader, hinfo⟩ := exists_ofBytes_iff.mp ⟨p, h⟩
  rw [ofBytes_of_le hheader hinfo] at h
  cases h
  rfl

/-- No judgement of a stream is taken for the end of the list. -/
theorem isMalformedEntry_of_notice? {pmtPid : Pid} {announcement : Announcement} {n : Notice}
    (h : announcement.notice? pmtPid = some n) : n.isMalformedEntry = false := by
  cases announcement <;> cases h <;> rfl

/-- Whoever follows the section goes over its streams once. -/
theorem notices_applyPmt (t : ProgramTable) (pmtPid : Pid) (program : Nat) (p : PmtSection) :
    (t.applyPmt pmtPid program p).notices.filter Notice.isMalformedEntry = p.notices := by
  have hjudged : ∀ announcements : List Announcement,
      (announcements.filterMap (Announcement.notice? pmtPid)).filter Notice.isMalformedEntry =
        [] := by
    intro announcements
    refine List.filter_eq_nil_iff.mpr fun n hn => ?_
    obtain ⟨announcement, -, hnotice⟩ := List.mem_filterMap.mp hn
    rw [isMalformedEntry_of_notice? hnotice]
    exact Bool.noConfusion
  have hown : p.notices.filter Notice.isMalformedEntry = p.notices := by
    refine List.filter_eq_self.mpr fun n hn => ?_
    obtain ⟨e, -, rfl⟩ := List.mem_map.mp hn
    rfl
  rw [ProgramTable.applyPmt, List.filter_append, hjudged]
  exact hown

/-- **Map tables.**  A body that was written is accepted, and read as it was written.  A body is
accepted if its first four bytes and the descriptors of the program are there, and not otherwise.
The streams of an accepted one are those of the longest part at the front of the list that consists
of whole entries: what is left behind them begins no whole entry.  If something is left, that is
noted once, as a warning, whenever the streams are gone over. -/
theorem decodes_whole_entries :
    (∀ m : OutgoingMap, ∃ p, ofBytes m.bytes = .ok p ∧
        p.pcrPid = m.pcrPid ∧ p.programInfo = m.programInfo ∧
        p.descriptors = Descriptor.list m.programInfo ∧
        p.streams = (m.streams.map OutgoingStream.entry, none)) ∧
      (∀ body, (∃ p, ofBytes body = .ok p) ↔
        4 ≤ body.length ∧ 4 + programInfoLength body ≤ body.length) ∧
      ∀ body p, ofBytes body = .ok p →
        ∃ (entries : List OutgoingStream) (rest : Bytes),
          body.drop (4 + programInfoLength body) =
              entries.flatMap OutgoingStream.bytes ++ rest ∧
            p.streams.1 = entries.map OutgoingStream.entry ∧
            ¬ StreamInfo.Begins rest ∧
            (∀ (others : List OutgoingStream) (more : Bytes),
              body.drop (4 + programInfoLength body) =
                  others.flatMap OutgoingStream.bytes ++ more →
                others.map OutgoingStream.entry <+: p.streams.1) ∧
            p.notices = (if rest = [] then []
              else [.malformedStreamEntry (StreamInfo.entryError rest)]) ∧
            (∀ n ∈ p.notices, n.severity = .warn) ∧
            ∀ t pmtPid program,
              (ProgramTable.applyPmt t pmtPid program p).notices.filter Notice.isMalformedEntry =
                p.notices := by
  refine ⟨fun m => ⟨_, m.ofBytes_bytes, rfl, rfl, rfl, OutgoingStream.listOfBytes_bytes m.streams⟩,
    fun body => exists_ofBytes_iff, fun body p h => ?_⟩
  have hlist := streamInfo_of_ofBytes h
  obtain ⟨entries, hbytes, hitems⟩ := StreamInfo.exists_readItems p.streamInfo
  have hremainder := StreamInfo.not_begins_of_read (read_remainder StreamInfo.read p.streamInfo)
  have hnotices : p.notices =
      (StreamInfo.remainderError? (readItems StreamInfo.read p.streamInfo).2).toList.map
        .malformedStreamEntry := rfl
  generalize (readItems StreamInfo.read p.streamInfo).2 = rest at hbytes hremainder hnotices
  refine ⟨entries, rest, hlist ▸ hbytes, hitems, hremainder, fun others more hothers => ?_, ?_,
    fun n hn => ?_, fun t pmtPid program => notices_applyPmt t pmtPid program p⟩
  · have hsplit := OutgoingStream.readItems_bytes_append others more
    rw [← hothers, ← hlist] at hsplit
    exact ⟨_, (congrArg Prod.fst hsplit).symm⟩
  · rw [hnotices, StreamInfo.remainderError?_of_not_begins hremainder]
    split <;> rfl
  · obtain ⟨e, -, rfl⟩ := List.mem_map.mp hn
    rfl

end PmtSection

end TransportStream
