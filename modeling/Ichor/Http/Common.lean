import Ichor.Lib.Table
import Ichor.Stl.StringUtils

/-! Requests and responses of the HTTP services, with the tables of `HttpInternal.cpp`. -/
namespace Ichor
open FiniteTable

/-! ## Methods -/

inductive HttpMethod where
  | unknown
  | delete | get | head | post | put | connect | options | trace
  | copy | lock | mkcol | move | propfind | proppatch | search | unlock | bind | rebind | unbind | acl
  | report | mkactivity | checkout | merge
  | msearch | notify | subscribe | unsubscribe
  | patch | purge
  | mkcalendar
  | link | unlink
  deriving DecidableEq, Repr

/-- `ICHOR_METHOD_MATCHING`. -/
def methodMatching : List (Bytes × HttpMethod) :=
  [(ascii "DELETE", .delete), (ascii "GET", .get), (ascii "HEAD", .head), (ascii "POST", .post),
   (ascii "PUT", .put), (ascii "CONNECT", .connect), (ascii "OPTIONS", .options),
   (ascii "TRACE", .trace), (ascii "COPY", .copy), (ascii "LOCK", .lock), (ascii "MKCOL", .mkcol),
   (ascii "MOVE", .move), (ascii "PROPFIND", .propfind), (ascii "PROPPATCH", .proppatch),
   (ascii "SEARCH", .search), (ascii "UNLOCK", .unlock), (ascii "BIND", .bind),
   (ascii "REBIND", .rebind), (ascii "UNBIND", .unbind), (ascii "ACL", .acl),
   (ascii "REPORT", .report), (ascii "MKACTIVITY", .mkactivity), (ascii "CHECKOUT", .checkout),
   (ascii "MERGE", .merge), (ascii "MSEARCH", .msearch), (ascii "NOTIFY", .notify),
   (ascii "SUBSCRIBE", .subscribe), (ascii "UNSUBSCRIBE", .unsubscribe), (ascii "PATCH", .patch),
   (ascii "PURGE", .purge), (ascii "MKCALENDAR", .mkcalendar), (ascii "LINK", .link),
   (ascii "UNLINK", .unlink)]

/-- `ICHOR_REVERSE_METHOD_MATCHING`: the same pairs the other way round. -/
def reverseMethodMatching : List (HttpMethod × Bytes) := methodMatching.map Prod.swap

/-! ## Statuses -/

/-- A value of the enumeration `HttpStatus`, whose underlying type holds any number. -/
abbrev HttpStatus := ℕ

namespace HttpStatus
def badRequest : HttpStatus := 400
def notFound : HttpStatus := 404
def internalServerError : HttpStatus := 500
end HttpStatus

/-- `ICHOR_STATUS_MATCHING`. -/
def statusMatching : List (HttpStatus × Bytes) :=
  [(100, ascii "Continue"), (101, ascii "Switching Protocols"), (102, ascii "Processing"),
   (200, ascii "OK"), (201, ascii "Created"), (202, ascii "Accepted"),
   (203, ascii "Non Authoritative Information"), (204, ascii "No Content"),
   (205, ascii "Reset Content"), (206, ascii "Partial Content"), (207, ascii "Multi Status"),
   (208, ascii "Already Reported"), (226, ascii "IM Used"), (300, ascii "Multiple Choices"),
   (301, ascii "Moved Permanently"), (302, ascii "Found"), (303, ascii "See Other"),
   (304, ascii "Not Modified"), (305, ascii "Use Proxy"), (307, ascii "Temporary Redirect"),
   (308, ascii "Permanent Redirect"), (400, ascii "Bad Request"), (401, ascii "Unauthorized"),
   (402, ascii "Payment Required"), (403, ascii "Forbidden"), (404, ascii "Not Found"),
   (405, ascii "Method Not Allowed"), (406, ascii "Not Acceptable"),
   (407, ascii "Proxy Authentication Required"), (408, ascii "Request Timeout"),
   (409, ascii "Conflict"), (410, ascii "Gone"), (411, ascii "Length Required"),
   (412, ascii "Precondition Failed"), (413, ascii "Payload Too Large"),
   (414, ascii "URI Too Long"), (415, ascii "Unsupported Media Type"),
   (416, ascii "Range Not Satisfiable"), (417, ascii "Expectation Failed"),
   (421, ascii "Misdirected Request"), (422, ascii "Unprocessable Entity"), (423, ascii "Locked"),
   (424, ascii "Failed Dependency"), (426, ascii "Upgrade Required"),
   (428, ascii "Precondition Required"), (429, ascii "Too Many Requests"),
   (431, ascii "Request Header Fields Too Large"),
   (444, ascii "Connection Closed Without Response"), (451, ascii "Unavailable For Legal Reasons"),
   (499, ascii "Client Closed Request"), (500, ascii "Internal Server Error"),
   (501, ascii "Not Implemented"), (502, ascii "Bad Gateway"), (503, ascii "Service Unavailable"),
   (504, ascii "Gateway Timeout"), (505, ascii "HTTP Version Not Supported"),
   (506, ascii "Variant Also Negotiates"), (507, ascii "Insufficient Storage"),
   (508, ascii "Loop Detected"), (510, ascii "Not Extended"),
   (511, ascii "Network Authentication Required"), (599, ascii "Network Connect Timeout Error")]

def statusText (status : HttpStatus) : Bytes :=
  (assoc status statusMatching).getD (ascii "Unknown")

/-! ## Messages -/

/-- A header map; the entries stand in the order in which the map is walked or was filled. -/
abbrev Headers := Table Bytes Bytes

structure HttpRequest where
  body : Bytes
  method : HttpMethod
  route : Bytes
  regexParams : List Bytes
  address : Bytes
  headers : Headers

structure HttpResponse where
  status : HttpStatus
  contentType : Option Bytes
  body : Bytes
  headers : Headers

inductive HttpParseError where
  | none | badRequest | wrongHttpVersion | quitting | bufferOverflow | incompleteRequest | chunked
  deriving DecidableEq, Repr

inductive HttpError where
  | noConnection | wrongMethod | unableToParseHeader | unableToParseResponse | ioError
  | getRequestsCannotHaveBody | svcQuitting | boostReadOrWriteError
  deriving DecidableEq, Repr

def httpVersionMatch : Bytes := ascii "HTTP/1.1"

/-- The end of a line. -/
def crlf : Bytes := ascii "\r\n"

/-- The end of a header, as the receivers search for it. -/
def terminator : Bytes := ascii "\r\n\r\n"

def colonSpace : Bytes := ascii ": "

def space : Bytes := ascii " "

def contentLengthName : Bytes := ascii "Content-Length"

def transferEncodingName : Bytes := ascii "Transfer-Encoding"

def chunkedCoding : Bytes := ascii "chunked"

/-- What a buffer may hold before the receivers give it up. -/
def bufferCap : ℕ := 1024 * 1024 * 512

end Ichor
