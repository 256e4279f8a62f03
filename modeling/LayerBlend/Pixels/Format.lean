/-!
# Formats of picture files

The ending of a file's name says in which format a picture with alpha is to be written.
`PictureFormat.ofEnding` finds the format, or the reason why the picture is not written in it.
-/

namespace LayerBlend

/-- A format in which pictures with alpha are written. -/
inductive PictureFormat where
  /-- A format that packs the pixels in a way of its own. -/
  | packed
  /-- The pixels from the bottom row to the top one, behind a file header and a bitmap header. -/
  | bitmap
  /-- The same without a file header. -/
  | bareBitmap
  /-- The colours without alpha from the top row to the bottom one, behind lines of text. -/
  | pixelMap
  deriving DecidableEq, Repr

/-- Why a picture with alpha is not written in a format. -/
inductive FormatFault where
  /-- There is no format with this ending. -/
  | unknown
  /-- Pictures in the format are only read. -/
  | readOnly
  /-- The format has no alpha. -/
  | noAlpha
  /-- The format has palettes or colours for print only. -/
  | noColours
  /-- What writes the format is not installed. -/
  | notInstalled
  deriving DecidableEq, Repr

namespace FormatFault

/-- What is wrong with a format. -/
def message : FormatFault → String
  | .unknown => "Unknown file format"
  | .readOnly => "File format is only read"
  | .noAlpha => "File format without alpha"
  | .noColours => "File format without such colours"
  | .notInstalled => "File format is not installed"

/-- The endings of the formats in which pictures with alpha are not written. -/
def endings : List (FormatFault × List String) := [
  (.readOnly, [
    ".psd", ".fit", ".fits", ".fli", ".flc", ".dcx", ".cur", ".ftc", ".ftu", ".gbr", ".iim", ".mpg",
    ".mpeg", ".pcd", ".pxr", ".ras", ".xpm", ".qoi"]),
  (.noAlpha, [".jpg", ".jpeg", ".jpe", ".jfif", ".mpo", ".msp", ".palm", ".xbm"]),
  (.noColours, [".pcx", ".eps", ".ps", ".blp"]),
  (.notInstalled, [".bufr", ".grib", ".h5", ".hdf", ".wmf", ".emf"])]

/-- The reason why a picture with alpha is not written in a format, by its ending. -/
def ofEnding (ending : String) : FormatFault :=
  ((endings.find? (·.2.contains ending)).map Prod.fst).getD .unknown

/-- The reason shows only when the file has been opened. -/
def opensFile : FormatFault → Bool
  | .unknown | .readOnly => false
  | .noAlpha | .noColours | .notInstalled => true

end FormatFault

namespace PictureFormat

/-- The endings of the formats in which pictures with alpha are written. -/
def endings : List (PictureFormat × List String) := [
  (.packed, [
    ".png", ".apng", ".gif", ".tif", ".tiff", ".webp", ".ico", ".icns", ".pdf", ".dds", ".im",
    ".sgi", ".bw", ".rgb", ".rgba", ".jp2", ".j2k", ".jpc", ".jpf", ".jpx", ".j2c", ".tga", ".icb",
    ".vda", ".vst"]),
  (.bitmap, [".bmp"]),
  (.bareBitmap, [".dib"]),
  (.pixelMap, [".pbm", ".pgm", ".ppm", ".pnm", ".pfm"])]

/-- The format that an ending with small letters stands for. -/
def ofEnding (ending : String) : Except FormatFault PictureFormat :=
  match endings.find? (·.2.contains ending) with
  | some (format, _) => .ok format
  | none => .error (.ofEnding ending)

end PictureFormat

end LayerBlend
