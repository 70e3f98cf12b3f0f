import TileStream.Fetching.Signature
import TileStream.Fetching.Template
import TileStream.Layer.Set

/-!
# Tiles over HTTP

A source asks a server for the address of a tile and judges the reply: first the status, then, once
the body is read, the bytes. No data for a tile is an outcome of its own; every other refusal may
pass; bytes that are no image where an image is due are malformed.

The exchange with the server is a parameter of `HttpSource.fetch`.
-/

namespace TileStream

/-- The phrases registered for status codes. -/
def statusReasons : List (Nat × String) :=
  [(100, "Continue"), (101, "Switching Protocols"), (102, "Processing"), (103, "Early Hints"),
   (200, "OK"), (201, "Created"), (202, "Accepted"), (203, "Non Authoritative Information"),
   (204, "No Content"), (205, "Reset Content"), (206, "Partial Content"), (207, "Multi-Status"),
   (208, "Already Reported"), (226, "IM Used"), (300, "Multiple Choices"),
   (301, "Moved Permanently"), (302, "Found"), (303, "See Other"), (304, "Not Modified"),
   (305, "Use Proxy"), (307, "Temporary Redirect"), (308, "Permanent Redirect"),
   (400, "Bad Request"), (401, "Unauthorized"), (402, "Payment Required"), (403, "Forbidden"),
   (404, "Not Found"), (405, "Method Not Allowed"), (406, "Not Acceptable"),
   (407, "Proxy Authentication Required"), (408, "Request Timeout"), (409, "Conflict"),
   (410, "Gone"), (411, "Length Required"), (412, "Precondition Failed"),
   (413, "Payload Too Large"), (414, "URI Too Long"), (415, "Unsupported Media Type"),
   (416, "Range Not Satisfiable"), (417, "Expectation Failed"), (418, "I'm a teapot"),
   (421, "Misdirected Request"), (422, "Unprocessable Entity"), (423, "Locked"),
   (424, "Failed Dependency"), (425, "Too Early"), (426, "Upgrade Required"),
   (428, "Precondition Required"), (429, "Too Many Requests"),
   (431, "Request Header Fields Too Large"), (451, "Unavailable For Legal Reasons"),
   (500, "Internal Server Error"), (501, "Not Implemented"), (502, "Bad Gateway"),
   (503, "Service Unavailable"), (504, "Gateway Timeout"), (505, "HTTP Version Not Supported"),
   (506, "Variant Also Negotiates"), (507, "Insufficient Storage"), (508, "Loop Detected"),
   (510, "Not Extended"), (511, "Network Authentication Required")]

/-- A status code with three digits. -/
structure Status where
  code : Nat
  deriving DecidableEq, Repr

namespace Status

/-- The status of a number with three digits. -/
def ofCode? (code : Nat) : Option Status := if 100 ≤ code && code < 1000 then some ⟨code⟩ else none

/-- The code and its phrase. -/
def display (s : Status) : String :=
  toString s.code ++ " " ++ (statusReasons.lookup s.code).getD "<unknown status code>"

/-- Whether a status promises data. Two statuses say that there is none, and those that are no
success may pass. -/
def check (s : Status) : Except FetchFailure Unit :=
  if s.code = 404 || s.code = 204 then .error .notFound
  else if 200 ≤ s.code && s.code < 300 then .ok ()
  else .error (.transient ("upstream returned " ++ s.display))

end Status

/-- Whether the bytes of a layer are what they should be: any for vectors, else an image of a format
that is decoded. -/
def checkPayload (layer : Layer) (bytes : Bytes) : Except FetchFailure Unit :=
  if bytes.isEmpty then .error (.malformed "empty body")
  else if layer = .vector then .ok ()
  else
    match ImageFormat.ofBytes? bytes with
    | none => .error (.malformed "unrecognised image signature")
    | some format =>
      if [ImageFormat.png, .jpeg, .webP].contains format then .ok ()
      else .error (.malformed ("unexpected " ++ format.title ++ " image"))

/-- What a server answers: nothing that could be understood, for a reason, or a status and a body,
which may break off. -/
inductive Exchange where
  | failed (reason : String)
  | reply (status : Status) (body : Except String Bytes)

/-- What an exchange yields for a layer. -/
def Exchange.outcome (layer : Layer) : Exchange → Outcome
  | failed reason => .error (.transient reason)
  | reply status body => do
    status.check
    match body with
    | .error reason => .error (.transient reason)
    | .ok bytes =>
      checkPayload layer bytes
      return bytes

/-- The address templates of the layers in use. -/
structure HttpSource where
  templates : PerLayer String
  deriving DecidableEq, Repr

namespace HttpSource

/-- The source with the templates that the settings give the layers in use. -/
def ofSettings (s : LoaderSettings) (layers : LayerSet) : HttpSource :=
  ⟨layers.toList.foldl (fun p l => p.set l (s.template l)) .empty⟩

/-- The address of a layer of a tile. -/
def address? (h : HttpSource) (tile : TileId) (layer : Layer) : Option String :=
  (h.templates.get? layer).map fun template => String.ofList (tile.address template.toList)

/-- Fetches a layer of a tile. There is no data for layers that are not in use. -/
def fetch (h : HttpSource) (server : String → Exchange) (tile : TileId) (layer : Layer) : Outcome :=
  match h.address? tile layer with
  | none => .error .notFound
  | some address => (server address).outcome layer

end HttpSource

end TileStream
