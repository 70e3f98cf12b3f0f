import TileStream.Logging.Endpoint
import TileStream.Logging.Filter

/-!
# Setting up the log and the meters

Meters are offered at an endpoint if one is asked for. An endpoint that cannot be read or opened is
warned of, and the service goes on without it.
-/

namespace TileStream

/-- What is asked of the log and the meters. -/
structure LogSettings where
  serviceName : String
  environment : String
  filter : String
  metricsAddress : Option String
  deriving DecidableEq, Repr

/-- What has been set up. -/
structure LogHandle where
  serviceName : String
  metricsEnabled : Bool
  deriving DecidableEq, Repr

namespace LogSettings

/-- The part of the program that sets up the log. -/
def target : String := "terra_observability"

/-- A warning about the endpoint of the meters. -/
def warning (s : LogSettings) (message error : String) : LogLine :=
  ⟨.warn, target, message, [("service", s.serviceName), ("error", error)]⟩

/-- Sets up log and meters. Returns the lines to log, before any filter. -/
def start (s : LogSettings) : LogHandle × List LogLine :=
  match s.metricsAddress with
  | none => (⟨s.serviceName, false⟩, [])
  | some address =>
    match Endpoint.ofText? address.toList with
    | none =>
      (⟨s.serviceName, false⟩,
        [s.warning "Invalid TERRA_METRICS_ADDR value" "invalid socket address syntax"])
    | some endpoint =>
      if endpoint.canOpen then (⟨s.serviceName, true⟩, [])
      else
        (⟨s.serviceName, false⟩,
          [s.warning "Failed to initialize Prometheus exporter" "the address cannot be assigned"])

/-- The line that opens the log of a service. -/
def startupLine (h : LogHandle) (environment : String) : LogLine :=
  ⟨.info, target, "terra service starting",
    [("service", h.serviceName), ("environment", environment),
     ("metrics_enabled", if h.metricsEnabled then "true" else "false")]⟩

/-- What has been set up, and the lines that are logged while the service starts. -/
def startup (s : LogSettings) : Checked (LogHandle × List LogLine) := do
  let filter ← LogFilter.ofText s.filter.toList
  let (handle, warnings) := s.start
  return (handle, (warnings ++ [startupLine handle s.environment]).filter filter.lets)

end LogSettings

end TileStream
