import Ganglion.Core.Types
import Ganglion.Lib.Stream
import Ganglion.Runtime.Connection

/-!
# Frames

The bytes of the raft transport (`write_frame`, `read_frame`): a tag for the format, the length of the body as a
big-endian `u32`, the body. The two body codecs are parameters; all that is used of them is that each reads back what
it wrote (`BodyCodecs.Lawful`).

* `writeFrame_eq` says what is written, and when nothing is.
* `readFrame_frame` reads one frame back, `readFrame_cut` a frame that is cut short.
* `readFrames_frames` and `readFrames_cut` are the same for a stream of frames, by induction on it.
-/

namespace Ganglion

/-- An `io::Error`. -/
structure FrameError where
  kind : ErrorKind
  message : String
  deriving DecidableEq

/-- `WireFormat`. -/
inductive WireFormat where
  | messagePack
  | json
  deriving DecidableEq

/-- A serialisation of the values of a type; failures are texts. -/
structure BodyCodec (V : Type) where
  toVec : V → Except String Bytes
  fromSlice : Bytes → Except String V

/-- The serialisations of the two formats. -/
structure BodyCodecs (V : Type) where
  rmpSerde : BodyCodec V
  serdeJson : BodyCodec V

/-- A serialisation reads back what it wrote. -/
def BodyCodec.Lawful {V : Type} (codec : BodyCodec V) : Prop :=
  ∀ value body, codec.toVec value = .ok body → codec.fromSlice body = .ok value

/-- Both serialisations do. -/
structure BodyCodecs.Lawful {V : Type} (codecs : BodyCodecs V) : Prop where
  rmpSerde : codecs.rmpSerde.Lawful
  serdeJson : codecs.serdeJson.Lawful

/-- The error of an `InvalidData` kind. -/
def invalidData (message : String) : FrameError := ⟨.invalidData, message⟩

/-- What `read_exact` answers at the end of the stream. -/
def earlyEof : FrameError := ⟨.unexpectedEof, "early eof"⟩

/-- A byte in the format `:#04x`. -/
def hexByte (b : UInt8) : String :=
  "0x" ++ String.ofList [Nat.digitChar (b.toNat / 16), Nat.digitChar (b.toNat % 16)]

/-! ## Formats -/

namespace WireFormat

/-- `TAG_MSGPACK`. -/
def tagMsgpack : UInt8 := 0x01

/-- `TAG_JSON`. -/
def tagJson : UInt8 := 0x02

/-- `tag`. -/
def tag : WireFormat → UInt8
  | messagePack => tagMsgpack
  | json => tagJson

/-- `from_tag`. -/
def fromTag (tag : UInt8) : Except FrameError WireFormat :=
  if tag = tagMsgpack then .ok messagePack
  else if tag = tagJson then .ok json
  else .error (invalidData ("unknown wire format tag " ++ hexByte tag))

@[simp] theorem fromTag_tag (format : WireFormat) : fromTag format.tag = .ok format := by
  cases format with
  | messagePack => rfl
  | json => rfl

variable {V : Type} (codecs : BodyCodecs V)

/-- The serialisation of a format. -/
def codec : WireFormat → BodyCodec V
  | messagePack => codecs.rmpSerde
  | json => codecs.serdeJson

/-- `encode`. -/
def encode (format : WireFormat) (value : V) : Except FrameError Bytes :=
  ((format.codec codecs).toVec value).mapError invalidData

/-- `decode`. -/
def decode (format : WireFormat) (bytes : Bytes) : Except FrameError V :=
  ((format.codec codecs).fromSlice bytes).mapError invalidData

variable {codecs}

theorem decode_encode (hcodecs : codecs.Lawful) {format : WireFormat} {value : V} {body : Bytes}
    (h : format.encode codecs value = .ok body) : format.decode codecs body = .ok value := by
  have hlawful : (format.codec codecs).Lawful := by
    cases format with
    | messagePack => exact hcodecs.rmpSerde
    | json => exact hcodecs.serdeJson
  rw [encode] at h
  cases hvec : (format.codec codecs).toVec value with
  | error message =>
    rw [hvec] at h
    cases h
  | ok bytes =>
    rw [hvec] at h
    cases h
    rw [decode, hlawful value body hvec]
    rfl

end WireFormat

/-! ## Reading and writing -/

/-- `MAX_FRAME_BYTES`. -/
def maxFrameBytes : UInt32 := 64 * 1024 * 1024

/-- What is wrong with a frame above the limit. -/
def frameTooLarge : FrameError := invalidData "frame too large"

section

variable {V : Type} (codecs : BodyCodecs V)

/-- `write_frame` on a stream that takes every byte: the reply, and the stream with what was written to it. -/
def writeFrame (stream : Bytes) (format : WireFormat) (value : V) : Except FrameError Unit × Bytes :=
  match format.encode codecs value with
  | .error error => (.error error, stream)
  | .ok body =>
    if UInt32.size ≤ body.length then (.error frameTooLarge, stream)
    else
      let length := UInt32.ofNat body.length
      if length > maxFrameBytes then (.error frameTooLarge, stream)
      else
        let stream := stream ++ [format.tag]
        let stream := stream ++ Stream.be32 length
        (.ok (), stream ++ body)

/-- `read_exact`: at the end of the stream everything is consumed. -/
def readExact (n : Nat) (stream : Bytes) : Except FrameError Bytes × Bytes :=
  match Stream.take? n stream with
  | some (bytes, stream) => (.ok bytes, stream)
  | none => (.error earlyEof, [])

/-- `read_frame`: the reply, and what is left of the stream. -/
def readFrame (stream : Bytes) : Except FrameError V × Bytes :=
  match readExact 1 stream with
  | (.error error, stream) => (.error error, stream)
  | (.ok tag, stream) =>
    match WireFormat.fromTag (tag.headD 0) with
    | .error error => (.error error, stream)
    | .ok format =>
      match readExact 4 stream with
      | (.error error, stream) => (.error error, stream)
      | (.ok length, stream) =>
        let length := Stream.ofBe32 length
        if length > maxFrameBytes then (.error frameTooLarge, stream)
        else
          match readExact length.toNat stream with
          | (.error error, stream) => (.error error, stream)
          | (.ok body, stream) => (format.decode codecs body, stream)

/-- `read_frame` called `n` times, up to an error. -/
def readFrames : Nat → Bytes → Except FrameError (List V) × Bytes
  | 0, stream => (.ok [], stream)
  | n + 1, stream =>
    match readFrame codecs stream with
    | (.error error, stream) => (.error error, stream)
    | (.ok value, stream) =>
      match readFrames n stream with
      | (.error error, stream) => (.error error, stream)
      | (.ok values, stream) => (.ok (value :: values), stream)

end

/-- The bytes of a frame. -/
def frame (format : WireFormat) (body : Bytes) : Bytes :=
  format.tag :: (Stream.be32 (UInt32.ofNat body.length) ++ body)

section

variable {V : Type} {codecs : BodyCodecs V} {format : WireFormat} {value : V} {body : Bytes}

theorem length_frame : (frame format body).length = body.length + 5 := by
  simp only [frame, List.length_cons, List.length_append, Stream.length_be32]
  omega

theorem toNat_maxFrameBytes : maxFrameBytes.toNat = 67108864 := rfl

/-- Below the limit a length is not cut when it is written as a `u32`. -/
theorem toNat_bodyLength (h : body.length ≤ maxFrameBytes.toNat) :
    (UInt32.ofNat body.length).toNat = body.length := by
  rw [toNat_maxFrameBytes] at h
  exact UInt32.toNat_ofNat_of_lt' (by rw [UInt32.size]; omega)

/-- Below the limit the `u32` is not above it. -/
theorem bodyLength_le (h : body.length ≤ maxFrameBytes.toNat) : ¬UInt32.ofNat body.length > maxFrameBytes := by
  rw [gt_iff_lt, UInt32.lt_iff_toNat_lt, toNat_bodyLength h]
  omega

/-! ## What is written -/

theorem writeFrame_ok (stream : Bytes) (h : format.encode codecs value = .ok body)
    (hlen : body.length ≤ maxFrameBytes.toNat) :
    writeFrame codecs stream format value = (.ok (), stream ++ frame format body) := by
  have hsmall : ¬UInt32.size ≤ body.length := by
    rw [toNat_maxFrameBytes] at hlen
    rw [UInt32.size]
    omega
  rw [writeFrame, h]
  dsimp only
  rw [if_neg hsmall, if_neg (bodyLength_le hlen), frame]
  simp only [List.append_assoc, List.cons_append, List.nil_append]

theorem writeFrame_tooLarge (stream : Bytes) (h : format.encode codecs value = .ok body)
    (hlen : maxFrameBytes.toNat < body.length) :
    writeFrame codecs stream format value = (.error frameTooLarge, stream) := by
  unfold writeFrame
  rw [h]
  dsimp only
  split
  · rfl
  · rename_i hsmall
    refine if_pos ?_
    rw [gt_iff_lt, UInt32.lt_iff_toNat_lt, UInt32.toNat_ofNat_of_lt' (by omega)]
    exact hlen

/-- A frame that cannot be written is an error, and nothing is written of it. -/
theorem writeFrame_refused (stream : Bytes)
    (h : ∀ body, format.encode codecs value = .ok body → maxFrameBytes.toNat < body.length) :
    ∃ error, error.kind = .invalidData ∧ writeFrame codecs stream format value = (.error error, stream) := by
  cases henc : format.encode codecs value with
  | error error =>
    refine ⟨error, ?_, by rw [writeFrame, henc]⟩
    rw [WireFormat.encode] at henc
    cases hvec : (format.codec codecs).toVec value with
    | error message =>
      rw [hvec] at henc
      cases henc
      rfl
    | ok body =>
      rw [hvec] at henc
      cases henc
  | ok body => exact ⟨frameTooLarge, rfl, writeFrame_tooLarge stream henc (h body henc)⟩

/-! ## What is read -/

theorem readExact_append {n : Nat} {xs : Bytes} (h : xs.length = n) (rest : Bytes) :
    readExact n (xs ++ rest) = (.ok xs, rest) := by
  rw [readExact, Stream.take?_append h]

theorem readExact_short {n : Nat} {stream : Bytes} (h : stream.length < n) :
    readExact n stream = (.error earlyEof, []) := by
  rw [readExact, Stream.take?_short h]

theorem readExact_one (b : UInt8) (rest : Bytes) : readExact 1 (b :: rest) = (.ok [b], rest) :=
  @readExact_append 1 [b] rfl rest

/-- After a complete header the length decides: above the limit the frame is refused, else its body is read. -/
theorem readFrame_header (length : UInt32) (rest : Bytes) :
    readFrame codecs (format.tag :: (Stream.be32 length ++ rest)) =
      if length > maxFrameBytes then (.error frameTooLarge, rest)
      else
        match readExact length.toNat rest with
        | (.error error, stream) => (.error error, stream)
        | (.ok body, stream) => (format.decode codecs body, stream) := by
  simp only [readFrame, readExact_one, List.headD_cons, WireFormat.fromTag_tag,
    readExact_append (Stream.length_be32 length) rest, Stream.ofBe32_be32]

/-- A frame is read back, whatever follows. -/
theorem readFrame_frame (hcodecs : codecs.Lawful) (h : format.encode codecs value = .ok body)
    (hlen : body.length ≤ maxFrameBytes.toNat) (rest : Bytes) :
    readFrame codecs (frame format body ++ rest) = (.ok value, rest) := by
  rw [frame, List.cons_append, List.append_assoc, readFrame_header, if_neg (bodyLength_le hlen),
    readExact_append (toNat_bodyLength hlen).symm]
  dsimp only
  rw [WireFormat.decode_encode hcodecs h]

/-- A frame that is cut short ends the stream. -/
theorem readFrame_cut (codecs : BodyCodecs V) (hlen : body.length ≤ maxFrameBytes.toNat) {k : Nat}
    (hk : k < (frame format body).length) :
    readFrame codecs ((frame format body).take k) = (.error earlyEof, []) := by
  rw [length_frame] at hk
  match k, hk with
  | 0, _ =>
    rw [List.take_zero, readFrame, readExact_short (by simp)]
  | k + 1, hk =>
    rw [frame, List.take_succ_cons]
    by_cases hheader : k < 4
    · -- the length is cut
      have hshort : ((Stream.be32 (UInt32.ofNat body.length) ++ body).take k).length < 4 := by
        rw [List.length_take]
        omega
      simp only [readFrame, readExact_one, List.headD_cons, WireFormat.fromTag_tag, readExact_short hshort]
    · -- the body is cut
      have hshort : (body.take (k - 4)).length < (UInt32.ofNat body.length).toNat := by
        rw [toNat_bodyLength hlen, List.length_take]
        omega
      rw [List.take_append, Stream.length_be32, List.take_of_length_le (by simp; omega), readFrame_header,
        if_neg (bodyLength_le hlen), readExact_short hshort]

end

/-! ## Streams of frames -/

section

variable {V : Type} {codecs : BodyCodecs V} {ps : List (WireFormat × V)}

/-- The outputs of `write_frame` for values with their formats, one after the other. -/
def frames (codecs : BodyCodecs V) (ps : List (WireFormat × V)) : Bytes :=
  (ps.map fun p => (writeFrame codecs [] p.1 p.2).2).flatten

/-- Every value is encoded within the limit. -/
def Fits (codecs : BodyCodecs V) (ps : List (WireFormat × V)) : Prop :=
  ∀ p ∈ ps, ∃ body, p.1.encode codecs p.2 = .ok body ∧ body.length ≤ maxFrameBytes.toNat

theorem frames_cons {p : WireFormat × V} {body : Bytes} (h : p.1.encode codecs p.2 = .ok body)
    (hlen : body.length ≤ maxFrameBytes.toNat) (ps : List (WireFormat × V)) :
    frames codecs (p :: ps) = frame p.1 body ++ frames codecs ps := by
  rw [frames, List.map_cons, List.flatten_cons, writeFrame_ok [] h hlen, List.nil_append, frames]

/-- The whole stream is read back, whatever follows. -/
theorem readFrames_frames (hcodecs : codecs.Lawful) (hfits : Fits codecs ps) (rest : Bytes) :
    readFrames codecs ps.length (frames codecs ps ++ rest) = (.ok (ps.map Prod.snd), rest) := by
  induction ps with
  | nil => rfl
  | cons p ps ih =>
    obtain ⟨body, henc, hlen⟩ := hfits p (.head ps)
    rw [frames_cons henc hlen, List.append_assoc, List.length_cons, readFrames,
      readFrame_frame hcodecs henc hlen]
    dsimp only
    rw [ih fun q hq => hfits q (.tail p hq)]
    rfl

/-- What a cut stream gives: the frames before the cut, and then its end. -/
structure ReadsUpTo (codecs : BodyCodecs V) (ps : List (WireFormat × V)) (k j : Nat) : Prop where
  some_left : j < ps.length
  complete : (frames codecs (ps.take j)).length ≤ k
  incomplete : k < (frames codecs (ps.take (j + 1))).length
  reads : ∃ cut, readFrames codecs j ((frames codecs ps).take k) = (.ok ((ps.take j).map Prod.snd), cut) ∧
    readFrame codecs cut = (.error earlyEof, [])

/-- The cut falls into one of the frames: by induction on the stream, into the first or into the rest. -/
theorem readFrames_cut (hcodecs : codecs.Lawful) (hfits : Fits codecs ps) {k : Nat}
    (hk : k < (frames codecs ps).length) : ∃ j, ReadsUpTo codecs ps k j := by
  induction ps generalizing k with
  | nil => exact absurd hk (Nat.not_lt_zero k)
  | cons p ps ih =>
    obtain ⟨body, henc, hlen⟩ := hfits p (.head ps)
    have hcons : ∀ qs, frames codecs (p :: qs) = frame p.1 body ++ frames codecs qs := frames_cons henc hlen
    by_cases hfirst : k < (frame p.1 body).length
    · refine ⟨0, Nat.zero_lt_succ _, Nat.zero_le k, ?_, _, rfl, ?_⟩
      · rw [List.take_succ_cons, hcons, List.length_append]
        omega
      · rw [hcons, List.take_append_of_le_length (by omega)]
        exact readFrame_cut codecs hlen hfirst
    · rw [hcons, List.length_append] at hk
      obtain ⟨j, hj⟩ := ih (fun q hq => hfits q (.tail p hq)) (show k - (frame p.1 body).length < _ by omega)
      obtain ⟨cut, hreads, hcut⟩ := hj.reads
      have hcomplete := hj.complete
      have hincomplete := hj.incomplete
      refine ⟨j + 1, Nat.succ_lt_succ hj.some_left, ?_, ?_, cut, ?_, hcut⟩
      · rw [List.take_succ_cons, hcons, List.length_append]
        omega
      · rw [List.take_succ_cons, hcons, List.length_append]
        omega
      · rw [hcons, List.take_append, List.take_of_length_le (by omega), readFrames,
          readFrame_frame hcodecs henc hlen]
        dsimp only
        rw [hreads]
        rfl

/-- **Frame streams decode to what was sent.** The frames of any values, in any formats, are read back in order and to
the byte, whatever follows; a cut stream gives the frames before the cut and then `UnexpectedEof`. A frame is refused,
with nothing written, exactly when its body does not encode or exceeds the limit; and the reader has the same limit. -/
theorem frame_streams (codecs : BodyCodecs V) (hcodecs : codecs.Lawful) :
    (∀ ps, Fits codecs ps →
      (∀ rest, readFrames codecs ps.length (frames codecs ps ++ rest) = (.ok (ps.map Prod.snd), rest)) ∧
        ∀ k < (frames codecs ps).length, ∃ j, ReadsUpTo codecs ps k j) ∧
    (∀ stream format value,
      ((∃ error, (writeFrame codecs stream format value).1 = .error error) ↔
        (∃ error, format.encode codecs value = .error error) ∨
          ∃ body, format.encode codecs value = .ok body ∧ maxFrameBytes.toNat < body.length) ∧
      ∀ error, (writeFrame codecs stream format value).1 = .error error →
        error.kind = .invalidData ∧ (writeFrame codecs stream format value).2 = stream) ∧
    ∀ (format : WireFormat) (length : UInt32) (rest : Bytes),
      (maxFrameBytes < length →
        readFrame codecs (format.tag :: (Stream.be32 length ++ rest)) = (.error frameTooLarge, rest)) ∧
      (length ≤ maxFrameBytes → length.toNat ≤ rest.length →
        readFrame codecs (format.tag :: (Stream.be32 length ++ rest)) =
          (format.decode codecs (rest.take length.toNat), rest.drop length.toNat)) := by
  refine ⟨fun ps hfits => ⟨readFrames_frames hcodecs hfits, fun k hk => readFrames_cut hcodecs hfits hk⟩,
    fun stream format value => ?_, fun format length rest => ⟨fun hlarge => ?_, fun hlimit hrest => ?_⟩⟩
  · by_cases hwritten : ∃ body, format.encode codecs value = .ok body ∧ body.length ≤ maxFrameBytes.toNat
    · obtain ⟨body, henc, hlen⟩ := hwritten
      rw [writeFrame_ok stream henc hlen]
      refine ⟨⟨?_, ?_⟩, ?_⟩
      · rintro ⟨error, h⟩
        cases h
      · rintro (⟨error, h⟩ | ⟨body', h, hlarge⟩)
        · rw [henc] at h
          cases h
        · rw [henc] at h
          cases h
          omega
      · intro error h
        cases h
    · have hrefused : ∀ body, format.encode codecs value = .ok body → maxFrameBytes.toNat < body.length := by
        intro body henc
        by_contra hle
        exact hwritten ⟨body, henc, by omega⟩
      obtain ⟨error, hkind, hwrite⟩ := writeFrame_refused stream hrefused
      rw [hwrite]
      refine ⟨⟨fun _ => ?_, fun _ => ⟨error, rfl⟩⟩, ?_⟩
      · cases henc : format.encode codecs value with
        | error error' => exact .inl ⟨error', rfl⟩
        | ok body => exact .inr ⟨body, rfl, hrefused body henc⟩
      · intro error' h
        cases h
        exact ⟨hkind, rfl⟩
  · rw [readFrame_header, if_pos hlarge]
  · rw [readFrame_header, if_neg (UInt32.not_lt.2 hlimit), readExact, Stream.take?, if_pos hrest]

end

/-! ### Truth values in both formats -/

/-- MessagePack of a truth value. -/
def rmpBool : BodyCodec Bool where
  toVec value := .ok [if value then 0xc3 else 0xc2]
  fromSlice bytes :=
    if bytes = [0xc3] then .ok true else if bytes = [0xc2] then .ok false else .error "invalid type, expected a boolean"

/-- JSON of a truth value. -/
def jsonBool : BodyCodec Bool where
  toVec value := .ok (if value then [116, 114, 117, 101] else [102, 97, 108, 115, 101])
  fromSlice bytes :=
    if bytes = [116, 114, 117, 101] then .ok true else if bytes = [102, 97, 108, 115, 101] then .ok false
    else .error "expected value at line 1 column 1"

/-- Both. -/
def boolCodecs : BodyCodecs Bool := ⟨rmpBool, jsonBool⟩

theorem frame_streams_bool :
    readFrames boolCodecs 2 ([0x01, 0, 0, 0, 1, 0xc3, 0x02, 0, 0, 0, 5, 102, 97, 108, 115, 101] ++ [0x07]) =
      (.ok [true, false], [0x07]) := by
  have hlawful : boolCodecs.Lawful := by
    constructor
    · rintro (_ | _) body h <;> cases h <;> rfl
    · rintro (_ | _) body h <;> cases h <;> rfl
  have hfits : Fits boolCodecs [(.messagePack, true), (.json, false)] := by
    intro p hp
    rcases List.mem_cons.1 hp with rfl | hp
    · exact ⟨[0xc3], rfl, by decide⟩
    · rw [List.mem_singleton.1 hp]
      exact ⟨[102, 97, 108, 115, 101], rfl, by decide⟩
  exact ((frame_streams boolCodecs hlawful).1 _ hfits).1 [0x07]

end Ganglion
