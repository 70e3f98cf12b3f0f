import TileStream.Geo.Tile
import TileStream.Layer.Set
import TileStream.Settings.Error
import TileStream.Settings.Variables
import TileStream.Time

/-!
# Settings of the request pipeline

They are set once, before the pipeline starts. `validate` refuses limits of zero, a rate that is not
a positive finite number, and a tree deeper than the levels supported, in this order.
-/

namespace TileStream

/-- The limits of the request pipeline. -/
structure StreamSettings where
  ramQuadLimit : Nat
  gpuQuadLimit : Nat
  maxConcurrentQuads : Nat
  maxRequestsPerSecond : Float
  enabledLayers : LayerSet
  maxZoom : UInt8
  failedQuadRetrySeconds : Nat
  deriving Repr

namespace StreamSettings

/-- The settings where nothing else is said. -/
def standard : StreamSettings :=
  { ramQuadLimit := 12000
    gpuQuadLimit := 512
    maxConcurrentQuads := 16
    maxRequestsPerSecond := 100.0
    enabledLayers := LayerSet.empty.insert .height |>.insert .ortho
    maxZoom := 18
    failedQuadRetrySeconds := 300 }

/-- Nothing, for settings that can be used; else what is wrong with them first. -/
def validate (s : StreamSettings) : Except SettingsError Unit :=
  if s.ramQuadLimit = 0 then .error (.zero "ram_quad_limit")
  else if s.gpuQuadLimit = 0 then .error (.zero "gpu_quad_limit")
  else if s.maxConcurrentQuads = 0 then .error (.zero "max_concurrent_quads")
  else if !s.maxRequestsPerSecond.isFinite || s.maxRequestsPerSecond ≤ 0.0 then
    .error (.invalidRate s.maxRequestsPerSecond)
  else if maxSupportedZoom < s.maxZoom then .error (.zoomTooDeep s.maxZoom)
  else .ok ()

/-- The settings that the variables give, unless they name an unknown layer or cannot be used. -/
def ofVariables (v : Variables) : Except SettingsError StreamSettings := do
  let enabledLayers ← match v.get? "TERRA_ENABLED_LAYERS" with
    | some text => (LayerSet.parse text.toList).mapError .layers
    | none => .ok standard.enabledLayers
  let s : StreamSettings :=
    { ramQuadLimit := v.word64 "TERRA_RAM_QUAD_LIMIT" standard.ramQuadLimit
      gpuQuadLimit := v.word64 "TERRA_GPU_QUAD_LIMIT" standard.gpuQuadLimit
      maxConcurrentQuads := v.word64 "TERRA_MAX_CONCURRENT_QUADS" standard.maxConcurrentQuads
      maxRequestsPerSecond :=
        v.float "TERRA_MAX_REQUESTS_PER_SECOND" standard.maxRequestsPerSecond
      enabledLayers
      maxZoom := v.word8 "TERRA_MAX_ZOOM" standard.maxZoom
      failedQuadRetrySeconds :=
        v.word64 "TERRA_FAILED_QUAD_RETRY_SECS" standard.failedQuadRetrySeconds }
  s.validate
  return s

/-- How long a quad that was lost to the network is left alone. -/
def failedQuadRetry (s : StreamSettings) : Duration := .ofSeconds s.failedQuadRetrySeconds

end StreamSettings

end TileStream
