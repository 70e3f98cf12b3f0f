import TileStream.Fetching.Cached
import TileStream.Fetching.Http
import TileStream.Fetching.Retry
import TileStream.Flight
import TileStream.Geo.Culling
import TileStream.Logging.Setup
import TileStream.Pipeline.Calls
import TileStream.Settings.Loader
import TileStream.Settings.Service
import TileStream.Store.Disk

/-!
# The program

The streamer reads its settings from variables, sets up the log, opens the tile cache, makes the
client that talks to the servers, reads the latest tiles ahead and sets out on a flight until it is
interrupted. What it cannot go on without ends it at once: settings that cannot be used, a cache
directory that cannot be made, or a client that cannot be made. A cache that cannot be read is only
warned of.

The client is made elsewhere: how that goes is a parameter of the program.

`Program.launch` does all up to the flight, `Program.run` the whole of it as far as it can be seen:
the exit code, the error text and the log.
-/

namespace TileStream

/-- Why no client could be made, in words, and after that what caused it, the nearest cause first. -/
structure ClientFailure where
  message : String
  causes : List String

/-- The making of the client that talks to the servers, given how long an exchange may take. -/
abbrev ClientMaker := Duration → Except ClientFailure Unit

/-- Why the program does not set out. -/
inductive LaunchFailure where
  | settings (cause : SettingsError)
  | store (cause : StoreFailure)
  | client (cause : ClientFailure)

namespace LaunchFailure

/-- The failure in words, and after it what caused it. -/
def chain : LaunchFailure → List String
  | settings (.layers cause) => [(SettingsError.layers cause).message, cause.display]
  | settings cause => [cause.message]
  | store cause => [cause.message]
  | client cause => cause.message :: cause.causes

/-- A text on lines of its own: `head` stands before the first one and `margin` before the others. -/
def paragraph (head margin text : String) : String :=
  "\n" ++ head ++ String.ofList (text.toList.flatMap fun c =>
    if c = '\n' then ("\n" ++ margin).toList else [c])

/-- The causes, set in. If there are several they are numbered from zero, with the numbers flush
right. -/
def causeLines : List String → String
  | [cause] => paragraph "    " "    " cause
  | causes => String.join (causes.zipIdx.map fun (cause, n) =>
      paragraph (String.ofList ((toString n).toList.leftpad 5 ' ') ++ ": ") "       " cause)

/-- What the program says when it ends with a failure. -/
def report (f : LaunchFailure) : String :=
  match f.chain with
  | [] => "Error: "
  | [message] => "Error: " ++ message
  | message :: causes => "Error: " ++ message ++ "\n\nCaused by:" ++ causeLines causes

end LaunchFailure

/-- The program about to set out: the cache in front of the servers, which are asked by a retry plan,
the pipeline, and the time that a fetch is given. -/
structure Launch where
  source : CachedSource DiskStore
  servers : HttpSource
  plan : RetryPlan
  pipeline : Pipeline Float Camera
  fetchLimit : Duration
  log : List LogLine

/-- Fetches a layer of a tile: from the cache, else from a server, with retries. `exchange i` is the
`i`-th exchange for an address and the time it takes. -/
def Launch.fetch (l : Launch) (exchange : Nat → String → Exchange × Duration) (tile : TileId)
    (layer : Layer) (now : CalendarTime) : Served DiskStore Outcome :=
  let attempt (i : Nat) : Attempt :=
    match l.servers.address? tile layer with
    | none => ⟨.error .notFound, ⟨0⟩⟩
    | some address => ⟨(exchange i address).1.outcome layer, (exchange i address).2⟩
  l.source.fetch tile layer (l.plan.run attempt).outcome now

/-- How the program ended. -/
structure ProgramReport where
  code : Nat
  errorText : String
  log : List LogLine
  deriving DecidableEq, Repr

namespace Program

/-- The variables that the program reads. -/
def variableNames : List String :=
  ["TERRA_SERVICE_NAME", "TERRA_ENV", "TERRA_METRICS_ADDR", "TERRA_LOG_LEVEL", "TERRA_DATA_DIR",
   "TERRA_RAM_QUAD_LIMIT", "TERRA_GPU_QUAD_LIMIT", "TERRA_MAX_CONCURRENT_QUADS",
   "TERRA_MAX_REQUESTS_PER_SECOND", "TERRA_ENABLED_LAYERS", "TERRA_MAX_ZOOM",
   "TERRA_FAILED_QUAD_RETRY_SECS", "TERRA_HEIGHT_URL", "TERRA_ORTHO_URL", "TERRA_VECTOR_URL",
   "TERRA_FETCH_TIMEOUT_MS", "TERRA_FETCH_MAX_ATTEMPTS", "TERRA_FETCH_RETRY_INITIAL_MS",
   "TERRA_FETCH_RETRY_MAX_MS", "TERRA_DISK_CACHE_MAX_AGE_DAYS"]

/-- A line from the program itself. -/
def line (level : LogLevel) (message : String) (fields : List (String × String)) : LogLine :=
  ⟨level, "terra_streamer", message, fields⟩

/-- A line from the service. -/
def serviceLine (message : String) (fields : List (String × String)) : LogLine :=
  ⟨.info, "terra_scheduler::service", message, fields⟩

/-- The line that tells that the service has started. -/
def startedLine (s : StreamSettings) : LogLine :=
  serviceLine "tile scheduler started"
    [("max_concurrent_quads", toString s.maxConcurrentQuads),
     ("max_requests_per_second", Numeric.plainText s.maxRequestsPerSecond),
     ("enabled_layers", s.enabledLayers.display)]

/-- What is asked of the log. -/
def logSettings (s : ServiceSettings) : LogSettings :=
  ⟨s.serviceName, s.environment.name, s.logLevel, s.metricsAddress⟩

/-- How many layers of tiles are read ahead: all that the tiles of the cached quads can have. -/
def warmLimit (s : StreamSettings) : Nat :=
  min (s.ramQuadLimit * (4 * s.enabledLayers.size)) (Checked.words64 - 1)

/-- The line that tells of reading ahead. -/
def warmLine (s : ServiceSettings) : Except StoreFailure Nat → LogLine
  | .ok layers => line .info "tile cache warm start complete"
    [("layers", toString layers), ("cache_dir", s.tileCacheDirectory)]
  | .error e => line .warn "tile cache warm start failed, starting cold" [("error", e.message)]

/-- All up to the flight: settings, cache, client, pipeline. -/
def launch (client : ClientMaker) (v : Variables) (s : ServiceSettings) (files : FileTree)
    (now : CalendarTime) : Checked (Except LaunchFailure Launch) := do
  let loader := LoaderSettings.ofVariables v
  let opened : Except LaunchFailure (StreamSettings × DiskStore) := do
    let stream ← (StreamSettings.ofVariables v).mapError .settings
    (loader.validate stream.enabledLayers).mapError .settings
    let store ← (DiskStore.openAt files (.ofText s.tileCacheDirectory) now).2.mapError .store
    (client loader.fetchTimeout).mapError .client
    return (stream, store)
  match opened with
  | .error e => return .error e
  | .ok (stream, store) =>
    let warmed := (CachedSource.ofStore store (← loader.diskCacheMaxAge)).warmUp (warmLimit stream) now
    let coverage := Coverage.ofDepth stream.maxZoom
    let fetchLimit ← loader.fetchDeadline
    match Pipeline.ofSettings stream (ScreenSpaceError.ofCoverage coverage).culling coverage with
    | .error e => return .error (.settings e)
    | .ok pipeline =>
      return .ok
        { source := warmed.source
          servers := .ofSettings loader stream.enabledLayers
          plan := .ofSettings loader
          pipeline
          fetchLimit
          log := [warmLine s warmed.answer, startedLine stream] }

/-- The line that tells of a flight. -/
def flightLine (f : Flight) : Checked LogLine := do
  return line .info "replaying camera flight"
    [("waypoints", toString f.waypoints.length),
     ("start", (f.waypoints.head?.map (·.name)).getD "-"),
     ("loop_secs", toString (← f.round).seconds)]

/-- The whole course of the program in a directory with some files, when it is interrupted in
flight. -/
def run (client : ClientMaker) (v : Variables) (files : FileTree) (now : CalendarTime) :
    Checked ProgramReport := do
  let s := ServiceSettings.ofVariables v "terra-streamer"
  let filter ← LogFilter.ofText s.logLevel.toList
  let (handle, warnings) := (logSettings s).start
  let opening := warnings ++ [LogSettings.startupLine handle s.environment.name]
  match ← launch client v s files now with
  | .error e => return ⟨1, e.report, opening.filter filter.lets⟩
  | .ok l =>
    let ending := [serviceLine "tile scheduler stopped" [], line .info "terra-streamer stopped" []]
    return ⟨0, "", (opening ++ l.log ++ [← flightLine .alpine] ++ ending).filter filter.lets⟩

end Program

end TileStream
