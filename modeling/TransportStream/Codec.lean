/-!
# Codecs

As far as framing is concerned an elementary stream is video of one of two codecs, audio of one of
two families, or something else, which is announced like the others but never cut into frames.
-/

namespace TransportStream

/-- How the data of an elementary stream is cut into frames. -/
inductive FramingRole where
  /-- Along PES packets. -/
  | audio
  /-- Into access units. -/
  | video
  /-- Not at all. -/
  | other
  deriving DecidableEq

/-- The coding of an elementary stream. -/
inductive Codec where
  | h264
  | h265
  | aac
  | mpegAudio
  | unsupported
  deriving DecidableEq

namespace Codec

/-- How streams of this codec are cut into frames. -/
def role : Codec → FramingRole
  | h264 | h265 => .video
  | aac | mpegAudio => .audio
  | unsupported => .other

/-- The name of the codec in messages. -/
def name : Codec → String
  | h264 => "h264"
  | h265 => "h265"
  | aac => "aac"
  | mpegAudio => "mpeg-audio"
  | unsupported => "unsupported"

end Codec

end TransportStream
