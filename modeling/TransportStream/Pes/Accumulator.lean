import TransportStream.Notice

/-!
# Following PES packets through their transport packets

The PES packets of one elementary stream arrive in pieces, a piece to each transport packet.  The
accumulator strips the header off each PES packet and makes the rest available piece by piece,
without collecting it.  Only an incomplete header is collected, since it can be read only as a
whole.

## Inherited timestamps

A PES packet without timestamps continues what came before it, so the timestamps of the last header
that had some stay in force.  A header with a presentation timestamp alone gives the same time for
decoding.

## Bounded packets

For a PES packet that tells its length the accumulator counts down the bytes that may still come,
and what exceeds them is dropped.
-/

namespace TransportStream

/-- What became of a piece of data. -/
inductive PesProgress where
  /-- Payload is available; `unitStart` is set for the first piece of a PES packet. -/
  | ready (unitStart : Bool)
  /-- The header is incomplete. -/
  | pending
  /-- The data belongs to no PES packet that could be used. -/
  | ignored
  deriving DecidableEq

/-- How far the current PES packet has come. -/
inductive PesStage where
  /-- There is none. -/
  | idle
  /-- Of the header `held` is there, and `requested` bytes are needed to go on. -/
  | headerPending (held : Bytes) (requested : Nat)
  /-- The header is complete.  `available` is the last piece of payload, and `remaining` the number
  of bytes that may follow it in a bounded packet. -/
  | body (available : Bytes) (remaining : Option Nat)
  /-- The rest of the packet is not used. -/
  | discarding
  deriving DecidableEq

/-- The state of one elementary stream of PES packets. -/
structure PesAccumulator where
  /-- How far the current PES packet has come. -/
  stage : PesStage := .idle
  /-- The timestamps in force. -/
  timing : Timing := {}
  deriving DecidableEq

/-- What a piece of data does to an accumulator. -/
structure PesStep where
  /-- The accumulator afterwards. -/
  accumulator : PesAccumulator
  /-- What was notable. -/
  notices : List Notice := []
  /-- What became of the data. -/
  result : Except PesError PesProgress

namespace PesAccumulator

/-- Makes payload available, as far as the packet may have it. -/
def supply (timing : Timing) (payload : Bytes) (remaining : Option Nat) (first : Bool) : PesStep :=
  match remaining with
  | none => {
      accumulator := { stage := .body payload none, timing }
      result := .ok (.ready first) }
  | some limit => {
      accumulator := {
        stage := .body (payload.take limit) (some (limit - payload.length)), timing }
      notices :=
        if limit < payload.length then [.bytesBeyondPes (payload.length - limit)] else []
      result := .ok (.ready first) }

/-- The timestamps in force once a header has given some. -/
def inherit (timing given : Timing) : Timing :=
  match given.pts with
  | none => timing
  | some pts => { pts := some pts, dts := some (given.dts.getD pts) }

/-- Reads the header from all that is there of the PES packet, and makes the rest available. -/
def startBody (a : PesAccumulator) (bytes : Bytes) : PesStep :=
  match PesHeader.ofBytes bytes with
  | .ok header =>
    supply (inherit a.timing header.timing) (bytes.drop header.headerLength) header.payloadLength
      true
  | .error (.needMoreData requested _) => {
      accumulator := { a with stage := .headerPending bytes requested }
      result := .ok .pending }
  | .error e => { accumulator := { a with stage := .discarding }, result := .error e }

/-- What is notable about the end of the current PES packet: a bounded one may be incomplete. -/
def endingNotices (a : PesAccumulator) : List Notice :=
  match a.stage with
  | .body _ (some (missing + 1)) => [.pesEndedShort (missing + 1)]
  | _ => []

/-- Takes data that starts a PES packet.  If the header of the one before is still incomplete, the
data is lost with it, so that the loss is noticed. -/
def unitStart (a : PesAccumulator) (data : Bytes) : PesStep :=
  match a.stage with
  | .headerPending held requested => {
      accumulator := { a with stage := .idle }
      result := .error (.needMoreData requested held.length) }
  | _ =>
    let step := a.startBody data
    { step with notices := a.endingNotices ++ step.notices }

/-- Takes data that carries on the current PES packet. -/
def continuation (a : PesAccumulator) (data : Bytes) : PesStep :=
  match a.stage with
  | .idle | .discarding => { accumulator := a, result := .ok .ignored }
  | .headerPending held _ => a.startBody (held ++ data)
  | .body _ remaining => supply a.timing data remaining false

/-- Gives up the rest of the current PES packet. -/
def discard (a : PesAccumulator) : PesAccumulator :=
  { a with stage := .discarding }

/-- The payload made available by the last piece of data. -/
def available (a : PesAccumulator) : Bytes :=
  match a.stage with
  | .body available _ => available
  | _ => []

end PesAccumulator

end TransportStream
