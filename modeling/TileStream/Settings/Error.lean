import TileStream.Layer.Basic
import TileStream.Numeric.Shortest

/-!
# What can be wrong with settings
-/

namespace TileStream

/-- Why settings are refused. -/
inductive SettingsError where
  /-- The named limit is zero. -/
  | zero (name : String)
  /-- The rate is not a positive finite number. -/
  | invalidRate (rate : Float)
  /-- The tree would be deeper than the levels supported. -/
  | zoomTooDeep (zoom : UInt8)
  /-- A list of layers names an unknown one. -/
  | layers (cause : UnknownLayer)
  /-- The address template of an enabled layer lacks a placeholder. -/
  | urlTemplate (layer : Layer) (template : String)
  deriving Repr

/-- The refusal in words. -/
def SettingsError.message : SettingsError → String
  | zero name => name ++ " must be greater than zero"
  | invalidRate rate =>
    "max_requests_per_second must be a positive finite number, got " ++ Numeric.plainText rate
  | zoomTooDeep zoom => "max_zoom " ++ toString zoom ++ " exceeds the deepest supported level"
  | layers cause => "invalid layer list: " ++ cause.display
  | urlTemplate layer template =>
    "url template for " ++ layer.name ++
      " must contain \x7bz\x7d, \x7bx\x7d and \x7by\x7d: `" ++ template ++ "`"

end TileStream
