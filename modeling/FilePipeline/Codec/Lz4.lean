import FilePipeline.Codec
import FilePipeline.Lz4.Bound
import FilePipeline.Lz4.Decoder
import FilePipeline.Lz4.Match

/-! # The LZ4 codec

The codec that reads and writes single LZ4 blocks. It has no state. Compressing needs the full bound
as room, whatever the payload turns out to take. -/

namespace FilePipeline.Codec

/-- The refusal of a span smaller than the bound. -/
def lz4NoRoom : String :=
  "output is too small for the compressed data, use get_maximum_output_size to reserve enough space"

/-- Writes the block of `src` into `dst`. -/
def lz4Compress (src : List UInt8) (dst : Span) : CodecReply Unit :=
  match Lz4.encodedBound src.length with
  | .error c => ⟨Attempt.crash c, dst.byte, ()⟩
  | .ok bound =>
    if dst.size < bound then .refuse () dst (.compress lz4NoRoom)
    else .store () dst (Lz4.blockOf src.toArray).encode.toArray

/-- Writes the payload of the block `src` into `dst`. -/
def lz4Decompress (src : List UInt8) (dst : Span) : CodecReply Unit :=
  match Lz4.decode dst.size src with
  | .error f => ⟨Attempt.mapError (fun e => .decompress e.message) (.error f), dst.byte, ()⟩
  | .ok bytes => .store () dst bytes

def lz4 : Codec Unit where
  bound _ len := Lz4.encodedBound len
  expansion _ len := .ok (Lz4.decodedBound len)
  compress _ src dst := lz4Compress src dst
  decompress _ src dst := lz4Decompress src dst

end FilePipeline.Codec
