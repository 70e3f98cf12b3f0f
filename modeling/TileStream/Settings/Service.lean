import TileStream.Settings.Variables

/-!
# Settings of the service

The name the service goes by, where it runs, and where it keeps its data.
-/

namespace TileStream

/-- Where a service runs. -/
inductive Environment where
  | localMachine
  | dev
  | test
  | staging
  | prod
  deriving DecidableEq, Repr

namespace Environment

/-- The name that is written. -/
def name : Environment → String
  | localMachine => "local"
  | dev => "dev"
  | test => "test"
  | staging => "staging"
  | prod => "prod"

/-- Every environment. -/
def all : List Environment := [localMachine, dev, test, staging, prod]

/-- The environment a text names, whatever its case; unknown names mean the local machine. -/
def ofText (text : String) : Environment :=
  match String.ofList (Text.lower text.toList) with
  | "dev" | "development" => dev
  | "test" | "testing" => test
  | "staging" => staging
  | "prod" | "production" => prod
  | _ => localMachine

end Environment

/-- The settings of the service as a whole. -/
structure ServiceSettings where
  serviceName : String
  environment : Environment
  metricsAddress : Option String
  logLevel : String
  dataDirectory : String
  deriving DecidableEq, Repr

namespace ServiceSettings

/-- The settings that the variables give. -/
def ofVariables (v : Variables) (defaultName : String) : ServiceSettings :=
  { serviceName := v.text "TERRA_SERVICE_NAME" defaultName
    environment := .ofText (v.text "TERRA_ENV" "local")
    metricsAddress := v.get? "TERRA_METRICS_ADDR"
    logLevel := v.text "TERRA_LOG_LEVEL" "info"
    dataDirectory := v.text "TERRA_DATA_DIR" "./data" }

/-- A path inside a directory: one slash between them, none after an empty directory. -/
def joinPath (directory name : String) : String :=
  if directory.isEmpty || directory.toList.getLast? = some '/' then directory ++ name
  else directory ++ "/" ++ name

/-- The directory of the tile cache. -/
def tileCacheDirectory (s : ServiceSettings) : String := joinPath s.dataDirectory "tiles"

end ServiceSettings

end TileStream
