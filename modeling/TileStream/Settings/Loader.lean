import TileStream.Layer.Set
import TileStream.Settings.Error
import TileStream.Settings.Variables
import TileStream.Text.Occurrence
import TileStream.Time

/-!
# Settings of the loaders

Where the data of each layer comes from, how long and how often a fetch is tried, and how long
stored data stays good. Each layer in use needs an address template with the placeholders for zoom,
column and row.
-/

namespace TileStream

/-- The placeholders that a template needs: zoom, column and row. -/
def placeholders : List (List Char) := [['{', 'z', '}'], ['{', 'x', '}'], ['{', 'y', '}']]

/-- Sources, timeouts and retries of fetches, and the age limit of the disk cache. -/
structure LoaderSettings where
  heightUrl : String
  orthoUrl : String
  vectorUrl : String
  fetchTimeoutMillis : Nat
  fetchMaxAttempts : Nat
  fetchRetryInitialMillis : Nat
  fetchRetryMaxMillis : Nat
  diskCacheMaxAgeDays : Nat
  deriving DecidableEq, Repr

namespace LoaderSettings

/-- The settings where nothing else is said. -/
def standard : LoaderSettings :=
  { heightUrl :=
      "https://s3.amazonaws.com/elevation-tiles-prod/terrarium/\x7bz\x7d/\x7bx\x7d/\x7by\x7d.png"
    orthoUrl := "https://tile.openstreetmap.org/\x7bz\x7d/\x7bx\x7d/\x7by\x7d.png"
    vectorUrl := ""
    fetchTimeoutMillis := 8000
    fetchMaxAttempts := 3
    fetchRetryInitialMillis := 250
    fetchRetryMaxMillis := 4000
    diskCacheMaxAgeDays := 30 }

/-- The settings that the variables give. -/
def ofVariables (v : Variables) : LoaderSettings :=
  { heightUrl := v.text "TERRA_HEIGHT_URL" standard.heightUrl
    orthoUrl := v.text "TERRA_ORTHO_URL" standard.orthoUrl
    vectorUrl := v.text "TERRA_VECTOR_URL" standard.vectorUrl
    fetchTimeoutMillis := v.word64 "TERRA_FETCH_TIMEOUT_MS" standard.fetchTimeoutMillis
    fetchMaxAttempts := v.word32 "TERRA_FETCH_MAX_ATTEMPTS" standard.fetchMaxAttempts
    fetchRetryInitialMillis :=
      v.word64 "TERRA_FETCH_RETRY_INITIAL_MS" standard.fetchRetryInitialMillis
    fetchRetryMaxMillis := v.word64 "TERRA_FETCH_RETRY_MAX_MS" standard.fetchRetryMaxMillis
    diskCacheMaxAgeDays := v.word64 "TERRA_DISK_CACHE_MAX_AGE_DAYS" standard.diskCacheMaxAgeDays }

/-- The address template of a layer. -/
def template (s : LoaderSettings) : Layer → String
  | .height => s.heightUrl
  | .ortho => s.orthoUrl
  | .vector => s.vectorUrl

/-- Whether a template has every placeholder. -/
def isUsable (template : String) : Bool :=
  placeholders.all fun p => Text.occurs p template.toList

/-- Nothing when each of the layers has a usable template; else the first that has none. -/
def validate (s : LoaderSettings) (layers : LayerSet) : Except SettingsError Unit :=
  match layers.toList.find? fun l => !isUsable (s.template l) with
  | some l => .error (.urlTemplate l (s.template l))
  | none => .ok ()

/-- The time one attempt may take, at least a millisecond. -/
def fetchTimeout (s : LoaderSettings) : Duration := .ofMillis (max s.fetchTimeoutMillis 1)

/-- The time one fetch is given with all its attempts and the pauses between them. A fault when the
milliseconds do not fit 64 bits. -/
def fetchDeadline (s : LoaderSettings) : Checked Duration := do
  let attempts := max s.fetchMaxAttempts 1
  let pauses ← Checked.word64 (s.fetchRetryMaxMillis * (attempts - 1))
  let tries ← Checked.word64 (max s.fetchTimeoutMillis 1 * attempts)
  return .ofMillis (← Checked.word64 (tries + pauses))

/-- The age up to which stored data is good; none when there is no limit. A fault when the seconds
do not fit 64 bits. -/
def diskCacheMaxAge (s : LoaderSettings) : Checked (Option Duration) := do
  if s.diskCacheMaxAgeDays = 0 then return none
  return some (.ofSeconds (← Checked.word64 (s.diskCacheMaxAgeDays * 86400)))

end LoaderSettings

end TileStream
