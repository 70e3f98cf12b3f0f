import TileStream.Document.Basic
import TileStream.Geo.Camera
import TileStream.Geo.Coverage
import TileStream.Settings.Loader
import TileStream.Settings.Stream
import TileStream.Settings.Service

/-!
# Settings and geometry as documents

For each type a reader from documents and a writer to them. Writers give objects with all fields.
-/

namespace TileStream

open Document Checked

/-- A type with a form as documents. -/
class Documented (α : Type) where
  read? : Document → Option α
  write : α → Document

instance : Documented TileId where
  read? d := do
    match ← d.fields? ["zoom", "x", "y"] with
    | [zoom, x, y] =>
      return ⟨(← zoom.nat? words8).toUInt8, (← x.nat? words32).toUInt32,
        (← y.nat? words32).toUInt32⟩
    | _ => none
  write t := .object
    [("zoom", .whole t.zoom.toNat), ("x", .whole t.x.toNat), ("y", .whole t.y.toNat)]

instance : Documented Coordinate where
  read? d := do
    match ← d.fields? ["latitude", "longitude", "altitude_m"] with
    | [latitude, longitude, altitude] =>
      return ⟨← latitude.float?, ← longitude.float?, ← altitude.optional? float?⟩
    | _ => none
  write c := .object
    [("latitude", .real c.latitude), ("longitude", .real c.longitude),
     ("altitude_m", ofOption .real c.altitude)]

instance : Documented Box where
  read? d := do
    match ← d.fields? ["north", "south", "east", "west"] with
    | [north, south, east, west] =>
      return ⟨← north.float?, ← south.float?, ← east.float?, ← west.float?⟩
    | _ => none
  write b := .object
    [("north", .real b.north), ("south", .real b.south), ("east", .real b.east),
     ("west", .real b.west)]

instance : Documented Camera where
  read? d := do
    match ← d.fields? ["position", "viewport_width", "viewport_height", "field_of_view_deg"] with
    | [position, width, height, fieldOfView] =>
      return ⟨← Documented.read? position, (← width.nat? words32).toUInt32,
        (← height.nat? words32).toUInt32, ← fieldOfView.float?⟩
    | _ => none
  write c := .object
    [("position", Documented.write c.position), ("viewport_width", .whole c.viewportWidth.toNat),
     ("viewport_height", .whole c.viewportHeight.toNat),
     ("field_of_view_deg", .real c.fieldOfView)]

instance : Documented Coverage where
  read? d := do
    match ← d.fields? ["max_zoom", "extent"] with
    | [maxZoom, extent] =>
      return ⟨(← maxZoom.nat? words8).toUInt8, ← extent.optional? Documented.read?⟩
    | _ => none
  write c := .object
    [("max_zoom", .whole c.maxZoom.toNat), ("extent", ofOption Documented.write c.extent)]

instance : Documented Layer where
  read? := choice? (Layer.all.map fun l => (l.name, l))
  write l := .text l.name

instance : Documented LayerSet where
  read? d := (d.nat? words8).map fun n => ⟨n.toUInt8⟩
  write s := .whole s.bits.toNat

instance : Documented Environment where
  read? := choice? (Environment.all.map fun e => (e.name, e))
  write e := .text e.name

instance : Documented ServiceSettings where
  read? d := do
    match ← d.fields? ["service_name", "environment", "metrics_addr", "log_level", "data_dir"] with
    | [serviceName, environment, metricsAddress, logLevel, dataDirectory] =>
      return ⟨← serviceName.text?, ← Documented.read? environment,
        ← metricsAddress.optional? text?, ← logLevel.text?, ← dataDirectory.text?⟩
    | _ => none
  write s := .object
    [("service_name", .text s.serviceName), ("environment", Documented.write s.environment),
     ("metrics_addr", ofOption .text s.metricsAddress), ("log_level", .text s.logLevel),
     ("data_dir", .text s.dataDirectory)]

instance : Documented StreamSettings where
  read? d := do
    match ← d.fields? ["ram_quad_limit", "gpu_quad_limit", "max_concurrent_quads",
      "max_requests_per_second", "enabled_layers", "max_zoom", "failed_quad_retry_secs"] with
    | [ram, gpu, slots, rate, layers, maxZoom, retry] =>
      return ⟨← ram.nat? words64, ← gpu.nat? words64, ← slots.nat? words64, ← rate.float?,
        ← Documented.read? layers, (← maxZoom.nat? words8).toUInt8, ← retry.nat? words64⟩
    | _ => none
  write s := .object
    [("ram_quad_limit", .whole s.ramQuadLimit), ("gpu_quad_limit", .whole s.gpuQuadLimit),
     ("max_concurrent_quads", .whole s.maxConcurrentQuads),
     ("max_requests_per_second", .real s.maxRequestsPerSecond),
     ("enabled_layers", Documented.write s.enabledLayers), ("max_zoom", .whole s.maxZoom.toNat),
     ("failed_quad_retry_secs", .whole s.failedQuadRetrySeconds)]

instance : Documented LoaderSettings where
  read? d := do
    match ← d.fields? ["height_url", "ortho_url", "vector_url", "fetch_timeout_ms",
      "fetch_max_attempts", "fetch_retry_initial_ms", "fetch_retry_max_ms",
      "disk_cache_max_age_days"] with
    | [height, ortho, vector, timeout, attempts, initial, max, age] =>
      return ⟨← height.text?, ← ortho.text?, ← vector.text?, ← timeout.nat? words64,
        ← attempts.nat? words32, ← initial.nat? words64, ← max.nat? words64, ← age.nat? words64⟩
    | _ => none
  write s := .object
    [("height_url", .text s.heightUrl), ("ortho_url", .text s.orthoUrl),
     ("vector_url", .text s.vectorUrl), ("fetch_timeout_ms", .whole s.fetchTimeoutMillis),
     ("fetch_max_attempts", .whole s.fetchMaxAttempts),
     ("fetch_retry_initial_ms", .whole s.fetchRetryInitialMillis),
     ("fetch_retry_max_ms", .whole s.fetchRetryMaxMillis),
     ("disk_cache_max_age_days", .whole s.diskCacheMaxAgeDays)]

end TileStream
