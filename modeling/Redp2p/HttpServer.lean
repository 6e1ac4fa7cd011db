import Redp2p.HttpClient
import Redp2p.Punch

/-! The HTTP side of the index: it scans the bytes that a connection has buffered for one request. -/

namespace Redp2p

open ByteString

/-- `REDP2P_HTTP_BUF_MAX`. -/
def httpBufMax : Nat := httpLineMax * httpHeadersMax + httpBodyMax + 128

/-- What a scan reports: more input is needed, the request is refused with a status, or it is complete. -/
inductive Parsed where
  | more
  | refused (status : Nat)
  | complete (path body : Bytes)
  deriving DecidableEq

def crlf : Bytes := [0x0d, 0x0a]

/-- `strstr`: where a text first occurs in another. -/
def strstr (needle : Bytes) : Bytes → Option Nat
  | [] => if needle = [] then some 0 else none
  | b :: text => if needle.isPrefixOf (b :: text) then some 0 else (strstr needle text).map (· + 1)

/-- What the header lines of a request declare. -/
structure RequestHeaders where
  contentLength : Option Nat
  transferEncoding : Bool

/-- A line without the carriage return before its end. -/
def stripReturn (line : Bytes) : Bytes := if line.getLast? = some 0x0d then line.dropLast else line

/-- One header line. Without a result the request is malformed. -/
def requestHeader (headers : RequestHeaders) (line : Bytes) : Option RequestHeaders :=
  if !line.contains 0x3a then some headers
  else
    let name := line.takeWhile (· != 0x3a)
    let value := ((line.dropWhile (· != 0x3a)).drop 1).dropWhile fun b => b == 0x20 || b == 0x09
    if name.length ≥ 32 then none
    else if asciiCaseEq name (ascii "Content-Length") then
      (parseU value 0 httpBodyMax).map fun n => { headers with contentLength := some n }
    else if asciiCaseEq name (ascii "Transfer-Encoding") then
      some { headers with transferEncoding := true }
    else some headers

/-- The loop over the header lines, with the number of bytes before the blank line. Every turn passes a
line feed, so the length of the text bounds the turns. -/
def requestHeaders : Nat → Nat → Bytes → RequestHeaders → Option RequestHeaders
  | 0, _, _, headers => some headers
  | turns + 1, left, cursor, headers =>
    if left = 0 || !cursor.contains 0x0a then some headers
    else
      let line := cursor.takeWhile (· != 0x0a)
      if line = [0x0d] then some headers
      -- the line is copied with its carriage return
      else if line.length ≥ httpLineMax then none
      else
        (requestHeader headers (stripReturn line)).bind
          (requestHeaders turns (left - (line.length + 1)) (cursor.drop (line.length + 1)))

/-- The end of `redp2p_index_request_parse`: what the headers ask for. -/
def requestBody (buf : Bytes) (headerEnd : Nat) (path : Bytes) (headers : RequestHeaders) : Parsed :=
  let length := headers.contentLength.getD 0
  if headers.transferEncoding then .refused 501
  else if length > httpBodyMax then .refused 413
  else if buf.length < headerEnd + 4 + length then .more
  else .complete path ((buf.drop (headerEnd + 4)).take length)

/-- `redp2p_index_request_parse` on the bytes that are buffered. -/
def indexRequestParse (buf : Bytes) : Parsed :=
  let text := cstr buf
  if buf = [] then .more
  else if buf.length ≥ httpBufMax then .refused 431
  else
    match strstr (crlf ++ crlf) text with
    | none => if buf.length ≥ httpLineMax * httpHeadersMax then .refused 431 else .more
    | some headerEnd =>
      match parseField text 16 (some 0x20) with
      | none => .refused 400
      | some (method, cursor) =>
        if method ≠ ascii "POST" then .refused 405
        else
          match parseField cursor 128 (some 0x20) with
          | none => .refused 400
          | some (path, cursor) =>
            if !startsWith (ascii "HTTP/1.1") cursor && !startsWith (ascii "HTTP/1.0") cursor then
              .refused 400
            else
              match strstr crlf text with
              | none => .refused 400
              | some lineEnd =>
                match requestHeaders text.length (headerEnd - (lineEnd + 2)) (text.drop (lineEnd + 2))
                    ⟨none, false⟩ with
                | none => .refused 400
                | some headers => requestBody buf headerEnd path headers

end Redp2p
