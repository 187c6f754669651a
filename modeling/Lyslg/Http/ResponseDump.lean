import Lyslg.Http.Dump
import Lyslg.Http.ResponseParser
/-!
# `HttpResponse::dump` and the setters

What a message may be made of before it is printed: the setters of `HttpRequest` and of
`HttpResponse`, from what the constructors leave.
-/

namespace Lyslg.Http

/-- `HTTP_STATUS_MAP` -/
def httpStatusMap : List (Int × List UInt8) := [
  (100, chars "Continue"), (101, chars "Switching Protocols"), (102, chars "Processing"),
  (200, chars "OK"), (201, chars "Created"), (202, chars "Accepted"),
  (203, chars "Non-Authoritative Information"), (204, chars "No Content"),
  (205, chars "Reset Content"), (206, chars "Partial Content"), (207, chars "Multi-Status"),
  (208, chars "Already Reported"), (226, chars "IM Used"), (300, chars "Multiple Choices"),
  (301, chars "Moved Permanently"), (302, chars "Found"), (303, chars "See Other"),
  (304, chars "Not Modified"), (305, chars "Use Proxy"), (307, chars "Temporary Redirect"),
  (308, chars "Permanent Redirect"), (400, chars "Bad Request"), (401, chars "Unauthorized"),
  (402, chars "Payment Required"), (403, chars "Forbidden"), (404, chars "Not Found"),
  (405, chars "Method Not Allowed"), (406, chars "Not Acceptable"),
  (407, chars "Proxy Authentication Required"), (408, chars "Request Timeout"),
  (409, chars "Conflict"), (410, chars "Gone"), (411, chars "Length Required"),
  (412, chars "Precondition Failed"), (413, chars "Payload Too Large"),
  (414, chars "URI Too Long"), (415, chars "Unsupported Media Type"),
  (416, chars "Range Not Satisfiable"), (417, chars "Expectation Failed"),
  (421, chars "Misdirected Request"), (422, chars "Unprocessable Entity"), (423, chars "Locked"),
  (424, chars "Failed Dependency"), (426, chars "Upgrade Required"),
  (428, chars "Precondition Required"), (429, chars "Too Many Requests"),
  (431, chars "Request Header Fields Too Large"), (451, chars "Unavailable For Legal Reasons"),
  (500, chars "Internal Server Error"), (501, chars "Not Implemented"), (502, chars "Bad Gateway"),
  (503, chars "Service Unavailable"), (504, chars "Gateway Timeout"),
  (505, chars "HTTP Version Not Supported"), (506, chars "Variant Also Negotiates"),
  (507, chars "Insufficient Storage"), (508, chars "Loop Detected"), (510, chars "Not Extended"),
  (511, chars "Network Authentication Required")]

/-- `HttpStatusToString` -/
def httpStatusToString (s : Int) : List UInt8 := (httpStatusMap.lookup s).getD (chars "<unknown>")

/-- `HttpResponse` with `m_cookies`. -/
structure ResponseMessage extends HttpResponse where
  cookies : List (List UInt8) := []

/-- `HttpResponse::dump`; the constructor does not set `m_websocket`. -/
def ResponseMessage.dump (r : ResponseMessage) (websocket : Bool) : List UInt8 :=
  chars "HTTP/" ++ dumpNat (r.version >>> 4) ++ chars "." ++ dumpNat (r.version &&& 0x0f)
    ++ chars " " ++ dumpNat (r.status % 2 ^ 32).toNat ++ chars " "
    ++ (if r.reason = [] then httpStatusToString r.status else r.reason) ++ chars "\r\n"
    ++ (r.headers.flatMap fun header =>
      if !websocket && strcasecmpZero header.1 (chars "connection") then [] else dumpHeader header)
    ++ (r.cookies.flatMap fun cookie => chars "Set-Cookie: " ++ cookie ++ chars "\r\n")
    ++ (if websocket then []
      else chars "connection: " ++
        chars (if r.close then "close" else "keep-alive") ++ chars "\r\n")
    ++ (if r.body ≠ [] then
        chars "content-length: " ++ dumpNat r.body.length ++ chars "\r\n\r\n" ++ r.body
      else chars "\r\n")

/-! ## Setters -/

/-- `m_headers.erase(key)` -/
def Headers.erase (m : Headers) (key : List UInt8) : Headers :=
  m.filter fun entry => !strcasecmpZero entry.1 key

/-- The setters of `HttpRequest` but `setWebsocket`; `unprinted` stands for those of the parameters
and the cookies, which `dump` does not print. -/
inductive RequestSetter where
  | setMethod (v : HttpMethod)
  | setVersion (v : UInt8)
  | setPath (v : List UInt8)
  | setQuery (v : List UInt8)
  | setFragment (v : List UInt8)
  | setBody (v : List UInt8)
  | setClose (v : Bool)
  | setHeaders (v : Headers)
  | setHeader (key val : List UInt8)
  | delHeader (key : List UInt8)
  | unprinted

/-- `HttpRequest::HttpRequest` -/
def HttpRequest.new (version : UInt8) (close : Bool) : HttpRequest :=
  { version := version.toNat, close := close }

def HttpRequest.apply (r : HttpRequest) : RequestSetter → HttpRequest
  | .setMethod v => { r with method := v }
  | .setVersion v => { r with version := v.toNat }
  | .setPath v => { r with path := v }
  | .setQuery v => { r with query := v }
  | .setFragment v => { r with fragment := v }
  | .setBody v => { r with body := v }
  | .setClose v => { r with close := v }
  | .setHeaders v => { r with headers := v }
  | .setHeader key val => r.setHeader key val
  | .delHeader key => { r with headers := r.headers.erase key }
  | .unprinted => r

/-- The setters of `HttpResponse` but `setWebsocket`. -/
inductive ResponseSetter where
  | setStatus (v : Int)
  | setVersion (v : UInt8)
  | setBody (v : List UInt8)
  | setReason (v : List UInt8)
  | setClose (v : Bool)
  | setHeaders (v : Headers)
  | setHeader (key val : List UInt8)
  | delHeader (key : List UInt8)
  | setRedirect (uri : List UInt8)
  | setCookie (key val : List UInt8) (expired : Int) (path domain : List UInt8) (secure : Bool)

/-- `HttpResponse::HttpResponse` -/
def ResponseMessage.new (version : UInt8) (close : Bool) : ResponseMessage :=
  { version := version.toNat, close := close }

/-- The text that `HttpResponse::setCookie` adds; `time2Str` is `Time2Str` with its format. -/
def cookieText (time2Str : Int → List UInt8) (key val : List UInt8) (expired : Int)
    (path domain : List UInt8) (secure : Bool) : List UInt8 :=
  key ++ chars "=" ++ val
    ++ (if expired > 0 then chars ";expires=" ++ time2Str expired ++ chars " GMT" else [])
    ++ (if domain ≠ [] then chars ";domain=" ++ domain else [])
    ++ (if path ≠ [] then chars ";path=" ++ path else [])
    ++ (if secure then chars ";secure" else [])

def ResponseMessage.apply (time2Str : Int → List UInt8) (r : ResponseMessage) :
    ResponseSetter → ResponseMessage
  | .setStatus v => { r with status := v }
  | .setVersion v => { r with version := v.toNat }
  | .setBody v => { r with body := v }
  | .setReason v => { r with reason := v }
  | .setClose v => { r with close := v }
  | .setHeaders v => { r with headers := v }
  | .setHeader key val => { r with headers := r.headers.set key val }
  | .delHeader key => { r with headers := r.headers.erase key }
  | .setRedirect uri => { r with status := 302, headers := r.headers.set (chars "Location") uri }
  | .setCookie key val expired path domain secure =>
      { r with cookies := r.cookies ++ [cookieText time2Str key val expired path domain secure] }

end Lyslg.Http
