import TileStream.Record.Outcome

/-!
# Signatures of image formats

An image format is told from the bytes in front. Of formats that fit, the first in the table counts.
-/

namespace TileStream

/-- A format of images. -/
inductive ImageFormat where
  | png
  | jpeg
  | gif
  | webP
  | tiff
  | dds
  | bmp
  | ico
  | hdr
  | avif
  | openExr
  | qoi
  | pnm
  | farbfeld
  deriving DecidableEq, Repr

namespace ImageFormat

/-- The name of a format in messages. -/
def title : ImageFormat → String
  | png => "Png"
  | jpeg => "Jpeg"
  | gif => "Gif"
  | webP => "WebP"
  | tiff => "Tiff"
  | dds => "Dds"
  | bmp => "Bmp"
  | ico => "Ico"
  | hdr => "Hdr"
  | avif => "Avif"
  | openExr => "OpenExr"
  | qoi => "Qoi"
  | pnm => "Pnm"
  | farbfeld => "Farbfeld"

/-- A byte that has to be there, or any byte at all. -/
abbrev Pattern := List (Option UInt8)

/-- The pattern of given bytes. -/
def these (bytes : List UInt8) : Pattern := bytes.map some

/-- The pattern of the ASCII characters of a text. -/
def ascii (text : String) : Pattern := text.toList.map fun c => some c.toNat.toUInt8

/-- The pattern of any `n` bytes. -/
def any (n : Nat) : Pattern := List.replicate n none

/-- The signatures in the order in which they are tried. -/
def signatures : List (Pattern × ImageFormat) :=
  [(these [0x89, 0x50, 0x4E, 0x47, 0x0D, 0x0A, 0x1A, 0x0A], png),
   (these [0xFF, 0xD8, 0xFF], jpeg),
   (ascii "GIF89a", gif),
   (ascii "GIF87a", gif),
   (ascii "RIFF" ++ any 4 ++ ascii "WEBP", webP),
   (these [0x4D, 0x4D, 0x00, 0x2A], tiff),
   (these [0x49, 0x49, 0x2A, 0x00], tiff),
   (ascii "DDS ", dds),
   (ascii "BM", bmp),
   (these [0x00, 0x00, 0x01, 0x00], ico),
   (ascii "#?RADIANCE", hdr),
   (these [0x00, 0x00] ++ any 2 ++ ascii "ftypavif", avif),
   (these [0x76, 0x2F, 0x31, 0x01], openExr),
   (ascii "qoif", qoi)] ++
  ["P1", "P2", "P3", "P4", "P5", "P6", "P7"].map (fun mark => (ascii mark, pnm)) ++
  [(ascii "farbfeld", farbfeld)]

/-- Whether bytes start with a pattern. -/
def startsWith : Pattern → Bytes → Bool
  | [], _ => true
  | _ :: _, [] => false
  | none :: pattern, _ :: bytes => startsWith pattern bytes
  | some p :: pattern, b :: bytes => p == b && startsWith pattern bytes

/-- The format that bytes look like. -/
def ofBytes? (bytes : Bytes) : Option ImageFormat :=
  (signatures.find? fun (pattern, _) => startsWith pattern bytes).map (·.2)

end ImageFormat

end TileStream
