import Mathlib.Data.List.GetD
import TransportStream.Proofs.SectionEncoding

/-!
# The format of a section

The decoder of sections asks one question after the other, and gives up at the first that has the
wrong answer.  This module says where in a byte string each question is answered, so that what
becomes of a byte string can be read off without going through the decoder.  The accepted ones are
those in which a section of the long form is whole, and long enough for its own fields; what stands
behind it does not count.

* `TableSection.ofBytes_eq`: the questions in their order.
* `TableSection.HasFormat`, `TableSection.fields`: what is accepted, and what it is read as.
* `TableSection.ofBytes_eq_ok_iff`: the two together.
* `TableSection.decodes_written`: all of it, and that a section is read as it was written.
-/

namespace TransportStream

namespace TableSection

variable {data : Bytes} {verifyCrc : Bool}

/-! ## Places -/

/-- The number of bytes behind the first three, as these give it. -/
def sectionLength (data : Bytes) : Nat :=
  wordField 4 (data.getD 1 0) (data.getD 2 0)

/-- What a section is read as. -/
def fields (data : Bytes) : TableSection where
  header := {
    tableId := data.getD 0 0
    longForm := bitFlag (data.getD 1 0) 7
    privateIndicator := bitFlag (data.getD 1 0) 6
    length := sectionLength data }
  table := {
    tableExtension := word16 (data.getD 3 0) (data.getD 4 0)
    version := bitField (data.getD 5 0) 1 5
    currentNext := if bitFlag (data.getD 5 0) 0 then .current else .next
    sectionNumber := data.getD 6 0
    lastSectionNumber := data.getD 7 0 }
  body := (data.take (3 + sectionLength data - 4)).drop 8

theorem ofBytes_header_of_le (h : 3 ≤ data.length) :
    SectionHeader.ofBytes data = .ok (fields data).header := by
  match data, h with
  | _ :: _ :: _ :: _, _ => rfl

theorem ofBytes_header_of_lt (h : data.length < 3) :
    SectionHeader.ofBytes data = .error (.notEnoughData .sectionHeader 3 data.length) := by
  match data, h with
  | [], _ | [_], _ | [_, _], _ => rfl

theorem ofBytes?_table_of_length {bytes : Bytes} (h : 5 ≤ bytes.length) :
    TableHeader.ofBytes? bytes = some {
      tableExtension := word16 (bytes.getD 0 0) (bytes.getD 1 0)
      version := bitField (bytes.getD 2 0) 1 5
      currentNext := if bitFlag (bytes.getD 2 0) 0 then .current else .next
      sectionNumber := bytes.getD 3 0
      lastSectionNumber := bytes.getD 4 0 } := by
  match bytes, h with
  | _ :: _ :: _ :: _ :: _ :: _, _ => rfl

/-- The fields behind the header are read where they stand. -/
theorem ofBytes?_table_of_le (hmin : 12 ≤ 3 + sectionLength data)
    (hle : 3 + sectionLength data ≤ data.length) :
    TableHeader.ofBytes? ((data.take (3 + sectionLength data)).drop SectionHeader.size) =
      some (fields data).table := by
  have hplace : ∀ i < 5, ((data.take (3 + sectionLength data)).drop 3).getD i 0 =
      data.getD (3 + i) 0 := by
    intro i hi
    rw [List.getD_eq_getElem?_getD, List.getElem?_drop, List.getElem?_take_of_lt (by omega),
      ← List.getD_eq_getElem?_getD]
  have hlength : 5 ≤ ((data.take (3 + sectionLength data)).drop 3).length := by
    rw [List.length_drop, List.length_take]
    omega
  rw [SectionHeader.size, ofBytes?_table_of_length hlength, hplace 0 (by decide),
    hplace 1 (by decide), hplace 2 (by decide), hplace 3 (by decide), hplace 4 (by decide)]
  rfl

/-! ## Questions -/

/-- **The questions in their order.** -/
theorem ofBytes_eq (data : Bytes) (verifyCrc : Bool) :
    ofBytes data verifyCrc =
      if data.length < 3 then .error (.notEnoughData .sectionHeader 3 data.length)
      else if bitFlag (data.getD 1 0) 7 = false then .error (.shortForm (data.getD 0 0))
      else if 3 + sectionLength data < 12 ∨ data.length < 3 + sectionLength data then
        .error (.notEnoughData .tableSection (max (3 + sectionLength data) 12) data.length)
      else if verifyCrc = true ∧ Checksum.sum (data.take (3 + sectionLength data)) ≠ 0 then
        .error (.crcMismatch (data.getD 0 0))
      else .ok (fields data) := by
  by_cases hshort : data.length < 3
  · rw [if_pos hshort, ofBytes, ofBytes_header_of_lt hshort]
    rfl
  · rw [if_neg hshort, ofBytes, ofBytes_header_of_le (Nat.not_lt.mp hshort)]
    have hsize : (fields data).header.totalSize = 3 + sectionLength data := rfl
    have hform : (fields data).header.longForm = bitFlag (data.getD 1 0) 7 := rfl
    have hmin : minSize = 12 := rfl
    simp only [bind, Except.bind, hsize, hform, hmin]
    by_cases hlong : bitFlag (data.getD 1 0) 7 = false
    · rw [if_pos hlong, if_pos (by rw [hlong]; rfl)]
      rfl
    · rw [if_neg hlong, if_neg (by simpa using hlong)]
      by_cases hlength : 3 + sectionLength data < 12 ∨ data.length < 3 + sectionLength data
      · rw [if_pos hlength, if_pos hlength]
      · rw [if_neg hlength, if_neg hlength, ofBytes?_table_of_le (by omega) (by omega)]
        have hbody : ((data.take (3 + sectionLength data)).drop 8).take
            (3 + sectionLength data - 12) = (fields data).body := by
          rw [fields, List.drop_take, List.drop_take, List.take_take]
          congr 1
          omega
        have hcrc : (verifyCrc && Checksum.sum (data.take (3 + sectionLength data)) != 0) = true ↔
            verifyCrc = true ∧ Checksum.sum (data.take (3 + sectionLength data)) ≠ 0 := by
          rw [Bool.and_eq_true, bne_iff_ne]
        simp only [hcrc, SectionHeader.size, TableHeader.size, Nat.reduceAdd, hbody]
        rfl

/-! ## The format -/

/-- A byte string starts with a section of the long form, with a checksum that is right if it is
looked at. -/
structure HasFormat (data : Bytes) (verifyCrc : Bool) : Prop where
  /-- The header is there. -/
  header : 3 ≤ data.length
  /-- It announces the long form. -/
  longForm : bitFlag (data.getD 1 0) 7 = true
  /-- The section has room for the fields of that form and for the checksum. -/
  room : 9 ≤ sectionLength data
  /-- The section is there. -/
  size : 3 + sectionLength data ≤ data.length
  /-- The checksum is right. -/
  crc : verifyCrc = true → Checksum.sum (data.take (3 + sectionLength data)) = 0

/-- **The format.**  The byte strings that have it are accepted, and no others, and are read place
by place. -/
theorem ofBytes_eq_ok_iff {s : TableSection} :
    ofBytes data verifyCrc = .ok s ↔ HasFormat data verifyCrc ∧ s = fields data := by
  rw [ofBytes_eq]
  constructor
  · intro h
    split at h
    · cases h
    · next hheader =>
      split at h
      · cases h
      · next hlong =>
        split at h
        · cases h
        · next hlength =>
          split at h
          · cases h
          · next hcrc =>
            cases h
            refine ⟨⟨by omega, by simpa using hlong, by omega, by omega, fun hverify => ?_⟩, rfl⟩
            exact Decidable.byContradiction fun hsum => hcrc ⟨hverify, hsum⟩
  · rintro ⟨h, rfl⟩
    have hheader := h.header
    have hroom := h.room
    have hsize := h.size
    rw [if_neg (by omega), if_neg (by rw [h.longForm]; exact Bool.noConfusion), if_neg (by omega),
      if_neg fun hcrc => hcrc.2 (h.crc hcrc.1)]

/-- Byte strings that agree as far as the section reaches are read alike. -/
theorem ofBytes_of_take {other : Bytes} {s : TableSection} (h : ofBytes data verifyCrc = .ok s)
    (hsame : other.take (3 + sectionLength data) = data.take (3 + sectionLength data)) :
    ofBytes other verifyCrc = .ok s := by
  obtain ⟨hformat, rfl⟩ := ofBytes_eq_ok_iff.mp h
  have hroom := hformat.room
  have hsize := hformat.size
  have hplace : ∀ i < 8, other.getD i 0 = data.getD i 0 := by
    intro i hi
    have hi' : i < 3 + sectionLength data := by omega
    rw [List.getD_eq_getElem?_getD, List.getD_eq_getElem?_getD, ← List.getElem?_take_of_lt hi',
      hsame, List.getElem?_take_of_lt hi']
  have hlength : sectionLength other = sectionLength data := by
    rw [sectionLength, sectionLength, hplace 1 (by decide), hplace 2 (by decide)]
  have hle : 3 + sectionLength data ≤ other.length := by
    have hcount := congrArg List.length hsame
    rw [List.length_take, List.length_take] at hcount
    omega
  have hbody :
      other.take (3 + sectionLength data - 4) = data.take (3 + sectionLength data - 4) := by
    have hfront := congrArg (List.take (3 + sectionLength data - 4)) hsame
    rwa [List.take_take, List.take_take, Nat.min_eq_left (Nat.sub_le _ 4)] at hfront
  refine ofBytes_eq_ok_iff.mpr ⟨⟨by omega, ?_, by omega, by omega, ?_⟩, ?_⟩
  · rw [hplace 1 (by decide)]
    exact hformat.longForm
  · rw [hlength, hsame]
    exact hformat.crc
  · simp only [fields, hlength, hbody, hplace 0 (by decide), hplace 1 (by decide),
      hplace 3 (by decide), hplace 4 (by decide), hplace 5 (by decide), hplace 6 (by decide),
      hplace 7 (by decide)]

/-- **Sections.**  The byte strings that have the format are accepted, and no others.  What is
accepted is read place by place, and what stands behind the section has no influence.  A section
that was written, whatever its fields and its body, is read as it was written, whether or not its
checksum is looked at. -/
theorem decodes_written :
    (∀ data verifyCrc, (∃ s, ofBytes data verifyCrc = .ok s) ↔ HasFormat data verifyCrc) ∧
      (∀ data verifyCrc s, ofBytes data verifyCrc = .ok s →
        s = fields data ∧
          ∀ other : Bytes,
            other.take (3 + sectionLength data) = data.take (3 + sectionLength data) →
              ofBytes other verifyCrc = .ok s) ∧
      ∀ (o : OutgoingSection) (verifyCrc : Bool),
        ofBytes o.bytes verifyCrc =
          .ok { header := o.header, table := o.table, body := o.body } := by
  refine ⟨fun data verifyCrc => ?_, fun data verifyCrc s h => ?_, fun o verifyCrc => ?_⟩
  · constructor
    · rintro ⟨s, h⟩
      exact (ofBytes_eq_ok_iff.mp h).1
    · exact fun h => ⟨fields data, ofBytes_eq_ok_iff.mpr ⟨h, rfl⟩⟩
  · exact ⟨(ofBytes_eq_ok_iff.mp h).2, fun other hsame => ofBytes_of_take h hsame⟩
  · exact o.ofBytes_alone verifyCrc

end TableSection

end TransportStream
