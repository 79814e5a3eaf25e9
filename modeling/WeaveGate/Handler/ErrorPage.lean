import WeaveGate.Handler.Types

/-!
# Error pages

`error_page.rs`: a configured page or a generated one.
-/

namespace WeaveGate.Handler

open Http Settings
open Posix (Octets Path FileTree)
open Static (Body)

def canonicalReason (status : StatusCode) : Option String :=
  [ (100, "Continue"), (101, "Switching Protocols"), (102, "Processing"), (200, "OK"), (201, "Created"),
    (202, "Accepted"), (203, "Non Authoritative Information"), (204, "No Content"), (205, "Reset Content"),
    (206, "Partial Content"), (207, "Multi-Status"), (208, "Already Reported"), (226, "IM Used"),
    (300, "Multiple Choices"), (301, "Moved Permanently"), (302, "Found"), (303, "See Other"),
    (304, "Not Modified"), (305, "Use Proxy"), (307, "Temporary Redirect"), (308, "Permanent Redirect"),
    (400, "Bad Request"), (401, "Unauthorized"), (402, "Payment Required"), (403, "Forbidden"),
    (404, "Not Found"), (405, "Method Not Allowed"), (406, "Not Acceptable"),
    (407, "Proxy Authentication Required"), (408, "Request Timeout"), (409, "Conflict"), (410, "Gone"),
    (411, "Length Required"), (412, "Precondition Failed"), (413, "Payload Too Large"), (414, "URI Too Long"),
    (415, "Unsupported Media Type"), (416, "Range Not Satisfiable"), (417, "Expectation Failed"),
    (418, "I'm a teapot"), (421, "Misdirected Request"), (422, "Unprocessable Entity"), (423, "Locked"),
    (424, "Failed Dependency"), (426, "Upgrade Required"), (428, "Precondition Required"),
    (429, "Too Many Requests"), (431, "Request Header Fields Too Large"),
    (451, "Unavailable For Legal Reasons"), (500, "Internal Server Error"), (501, "Not Implemented"),
    (502, "Bad Gateway"), (503, "Service Unavailable"), (504, "Gateway Timeout"),
    (505, "HTTP Version Not Supported"), (506, "Variant Also Negotiates"), (507, "Insufficient Storage"),
    (508, "Loop Detected"), (510, "Not Extended"), (511, "Network Authentication Required") ].lookup status.code

/-- The content of a page file without the white space around it, empty when it is no regular file. -/
def pageContent (t : FileTree) (page : Path) : Str :=
  if t.isFile page then
    let bytes := ((t.open page).toOption.bind FileTree.OpenFile.content).getD []
    Text.trim (Utf8.decodeLossy bytes)
  else []

def is50x (status : StatusCode) : Bool := status.code ∈ [500, 501, 502, 503, 504, 505, 506, 507, 508]

def defaultPage (title : Str) : Str :=
  ("<!DOCTYPE html><html><head><meta charset=\"utf-8\"><meta name=\"viewport\" " ++
    "content=\"width=device-width,minimum-scale=1,initial-scale=1\"><title>").toList ++ title ++
  ("</title><style>html \x7b color-scheme: light dark; \x7d body \x7b font-family: sans-serif; " ++
    "text-align: center; \x7d</style></head><body><h1>").toList ++ title ++ "</h1></body></html>".toList

def htmlResponse (method : Method) (status : StatusCode) (content : Str) : Response Body :=
  let resp := Response.new (if method = .head then Body.empty else .full (Posix.utf8 content))
  (((resp.withStatus status).insertHeader .contentType (HeaderValue.fromStatic "text/html; charset=utf-8")).insertHeader
    .contentLength (Static.decimal (Text.len content))).insertHeader .acceptRanges (HeaderValue.fromStatic "bytes")

def errorResponse (t : FileTree) (method : Method) (status : StatusCode) (page404 page50x : Path) :
    Response Body :=
  let content := if status = .notFound then pageContent t page404
    else if is50x status then pageContent t page50x else []
  let title := Nat.toDigits 10 status.code ++ ' ' :: ((canonicalReason status).getD "").toList
  htmlResponse method status (if content = [] then defaultPage title else content)

end WeaveGate.Handler
