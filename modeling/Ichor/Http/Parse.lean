import Ichor.Http.Common

/-! `HttpHostService::parseRequest` and `HttpConnectionService::parseResponse`: both fold the
lines of the text up to a header terminator over their local variables, and each line is
folded word by word. -/
namespace Ichor
open FiniteTable Delimited

/-- What a parser comes to. -/
inductive ParseOutcome (α : Type) where
  | failed (error : HttpParseError) (len : ℕ)
  | parsed (value : α) (len : ℕ)
  /-- The view of the content, taken without a check, reaches outside the buffer. -/
  | overrun (start length : ℕ)
  /-- A vector was asked to reserve more than `max_size`. -/
  | lengthError

/-- `std::vector<uint8_t>::max_size`. -/
def maxSize : ℕ := 2 ^ 63 - 1

/-- The copy of a content that the buffer does not hold: `reserve(contentLength + 1)` throws, or
`assign` where the sum wraps to zero, unless the vector could hold the content. -/
def ParseOutcome.outside {α : Type} (start length : ℕ) : ParseOutcome α :=
  if maxSize ≤ length then .lengthError else .overrun start length

/-- The content that starts at a position, if the buffer holds it. -/
def contentAt (complete : Bytes) (start length : ℕ) : Option Bytes :=
  if start + length ≤ complete.length then some ((complete.drop start).take length) else none

/-- The end of both parsers: the content is copied with a zero behind it. -/
def copyContent {α : Type} (complete : Bytes) (len contentLength : ℕ) (withBody : Bytes → α) :
    ParseOutcome α :=
  match contentAt complete len contentLength with
  | none => .outside len contentLength
  | some content => .parsed (withBody (content ++ [0])) (wrap (len + contentLength))

/-- The callback for the words of a header line, which the two parsers share up to what they do
with the name and with the value. -/
structure HeaderWords (σ : Type) where
  badRequest : σ → Bool
  setBadRequest : σ → σ
  name : σ → Bytes → σ
  value : σ → Bytes → Bytes → σ

namespace HeaderWords
variable {σ : Type}

/-- One word, with `wordNo`, `matchedValue` and `key`. -/
def word (p : HeaderWords σ) (x : σ × ℕ × Bool × Bytes) (word : Bytes) : σ × ℕ × Bool × Bytes :=
  let (v, wordNo, matchedValue, key) := x
  if p.badRequest v then x
  else if wordNo = 0 then (p.name v word, wordNo + 1, matchedValue, word)
  else if wordNo = 1 then (p.value v key word, wordNo + 1, true, key)
  else (p.setBadRequest v, wordNo + 1, matchedValue, key)

def line (p : HeaderWords σ) (v : σ) (line : Bytes) : σ :=
  let (v, _, matchedValue, _) := (split colonSpace line).foldl p.word (v, 0, false, [])
  if matchedValue then v else p.setBadRequest v

end HeaderWords

/-! ## Requests -/

/-- The local variables of `parseRequest`. -/
structure RequestLocals where
  req : HttpRequest
  lineNo : ℕ
  crlfCounter : ℕ
  protocolLength : ℕ
  contentLength : ℕ
  badRequest : Bool
  contentLengthHeader : Bool
  contentLengthSet : Bool

namespace RequestLocals

def initial : RequestLocals where
  req := ⟨[], .unknown, [], [], [], Table.empty⟩
  lineNo := 0
  crlfCounter := 0
  protocolLength := 0
  contentLength := 0
  badRequest := false
  contentLengthHeader := false
  contentLengthSet := false

/-- A word of the first line, with `wordNo` and `matchedVersion`. -/
def requestLineWord (x : RequestLocals × ℕ × Bool) (word : Bytes) : RequestLocals × ℕ × Bool :=
  let (v, wordNo, matchedVersion) := x
  if v.badRequest then x
  else if wordNo = 0 then
    match assoc word methodMatching with
    | none => ({ v with badRequest := true }, wordNo + 1, matchedVersion)
    | some method => ({ v with req := { v.req with method := method } }, wordNo + 1, matchedVersion)
  else if wordNo = 1 then
    ({ v with req := { v.req with route := word } }, wordNo + 1, matchedVersion)
  else if wordNo = 2 then
    (if word ≠ httpVersionMatch then { v with badRequest := true } else v, wordNo + 1, true)
  else if wordNo = 3 then ({ v with badRequest := true }, wordNo + 1, matchedVersion)
  else (v, wordNo + 1, matchedVersion)

def requestLine (v : RequestLocals) (line : Bytes) : RequestLocals :=
  let (v, _, matchedVersion) := (split space line).foldl requestLineWord (v, 0, false)
  let v := if matchedVersion then v else { v with badRequest := true }
  { v with crlfCounter := v.crlfCounter + 1 }

def headerName (v : RequestLocals) (word : Bytes) : RequestLocals :=
  if word = contentLengthName then
    { v with
      badRequest := v.badRequest || v.contentLengthSet
      contentLengthHeader := true }
  else v

def headerValue (v : RequestLocals) (key word : Bytes) : RequestLocals :=
  let v := { v with req := { v.req with headers := v.req.headers.emplace key word } }
  if v.contentLengthHeader then
    if isOnlyDigits word then
      { v with
        contentLength := fastAtoiu word
        contentLengthSet := true
        contentLengthHeader := false }
    else { v with badRequest := true, contentLengthHeader := false }
  else v

def headerWords : HeaderWords RequestLocals where
  badRequest := RequestLocals.badRequest
  setBadRequest := fun v => { v with badRequest := true }
  name := headerName
  value := headerValue

def headerLine (v : RequestLocals) (line : Bytes) : RequestLocals :=
  { headerWords.line v line with crlfCounter := 1 }

def line (v : RequestLocals) (line : Bytes) : RequestLocals :=
  if v.badRequest then v
  else
    let v :=
      if v.lineNo = 0 then v.requestLine line
      else if line ≠ [] then v.headerLine line
      else { v with crlfCounter := v.crlfCounter + 1 }
    { v with
      protocolLength := wrap (v.protocolLength + (line.length + 2))
      lineNo := v.lineNo + 1 }

/-- The local variables behind the loop over the lines. -/
def read (part : Bytes) : RequestLocals :=
  let v := (split crlf part).foldl RequestLocals.line initial
  if v.crlfCounter < 2 then { v with badRequest := true } else v

/-- Not all of the declared content is there, in the arithmetic of the code. -/
def incomplete (v : RequestLocals) (complete : Bytes) : Bool :=
  v.contentLengthSet && decide (complete.length < wrap (v.protocolLength + v.contentLength))

/-- What is returned behind the loop. -/
def result (v : RequestLocals) (complete : Bytes) (len : ℕ) : ParseOutcome HttpRequest :=
  if v.badRequest then
    .failed .badRequest
      (if v.incomplete complete then wrap (len + v.contentLength) else (complete.take len).length)
  else if v.incomplete complete then .failed .incompleteRequest len
  else copyContent complete len v.contentLength fun body => { v.req with body := body }

end RequestLocals

def parseRequest (complete : Bytes) (len : ℕ) : ParseOutcome HttpRequest :=
  (RequestLocals.read (complete.take len)).result complete len

/-! ## Responses -/

inductive ChunkParseStatus where
  | none | length | content | done
  deriving DecidableEq

/-- The local variables of `parseResponse`; `lengthError` once `reserve` has thrown. -/
structure ResponseLocals where
  resp : HttpResponse
  lineNo : ℕ
  crlfCounter : ℕ
  protocolLength : ℕ
  contentLength : ℕ
  chunkLength : ℕ
  chunkedStatus : ChunkParseStatus
  badRequest : Bool
  contentLengthHeader : Bool
  contentLengthSet : Bool
  transferEncodingHeader : Bool
  transferEncodingSet : Bool
  chunkedTransfer : Bool
  lengthError : Bool

namespace ResponseLocals

def initial : ResponseLocals where
  resp := ⟨0, none, [], Table.empty⟩
  lineNo := 0
  crlfCounter := 0
  protocolLength := 0
  contentLength := 0
  chunkLength := 0
  chunkedStatus := .none
  badRequest := false
  contentLengthHeader := false
  contentLengthSet := false
  transferEncodingHeader := false
  transferEncodingSet := false
  chunkedTransfer := false
  lengthError := false

/-- A word of the status line, with `wordNo` and `matchedStatus`. -/
def statusLineWord (x : ResponseLocals × ℕ × Bool) (word : Bytes) : ResponseLocals × ℕ × Bool :=
  let (v, wordNo, matchedStatus) := x
  if v.badRequest then x
  else if wordNo = 0 then
    (if word ≠ httpVersionMatch then { v with badRequest := true } else v, wordNo + 1,
      matchedStatus)
  else if wordNo = 1 then
    if word = [] ∨ isOnlyDigits word = false then
      ({ v with badRequest := true }, wordNo + 1, matchedStatus)
    else
      let status := fastAtoiu word
      if status < 100 ∨ 599 < status then
        ({ v with badRequest := true }, wordNo + 1, matchedStatus)
      else ({ v with resp := { v.resp with status := status } }, wordNo + 1, true)
  else (v, wordNo + 1, matchedStatus)

def statusLine (v : ResponseLocals) (line : Bytes) : ResponseLocals :=
  let (v, _, matchedStatus) := (split space line).foldl statusLineWord (v, 0, false)
  let v := if matchedStatus then v else { v with badRequest := true }
  { v with crlfCounter := v.crlfCounter + 1 }

def headerName (v : ResponseLocals) (word : Bytes) : ResponseLocals :=
  if word = contentLengthName then
    { v with
      badRequest := v.badRequest || v.contentLengthSet
      contentLengthHeader := true }
  else if word = transferEncodingName then { v with transferEncodingHeader := true }
  else v

def headerValue (v : ResponseLocals) (key word : Bytes) : ResponseLocals :=
  let v := { v with resp := { v.resp with headers := v.resp.headers.emplace key word } }
  let v :=
    if v.contentLengthHeader then
      if isOnlyDigits word then
        { v with
          contentLength := fastAtoiu word
          contentLengthSet := true
          contentLengthHeader := false }
      else { v with badRequest := true, contentLengthHeader := false }
    else if v.transferEncodingHeader then
      { v with
        chunkedTransfer := v.chunkedTransfer || (find chunkedCoding word).isSome
        transferEncodingHeader := false
        transferEncodingSet := true }
    else v
  if v.contentLengthSet && v.transferEncodingSet then { v with badRequest := true } else v

def headerWords : HeaderWords ResponseLocals where
  badRequest := ResponseLocals.badRequest
  setBadRequest := fun v => { v with badRequest := true }
  name := headerName
  value := headerValue

/-- A line where the length of a chunk is expected. `reserve` throws beyond `max_size`; below it the
allocation is taken to succeed. -/
def chunkLengthLine (v : ResponseLocals) (line : Bytes) : ResponseLocals :=
  match safeHexToUint line with
  | none => { v with badRequest := true }
  | some length =>
    if length = 0 then
      { v with
        chunkLength := 0
        chunkedStatus := .done
        resp := { v.resp with body := v.resp.body ++ [0] } }
    else
      { v with
        chunkLength := wrap (length + 2)
        chunkedStatus := .content
        lengthError := decide (maxSize < wrap (v.resp.body.length + wrap (length + 2))) }

/-- A line where the content of a chunk is expected. -/
def chunkContentLine (v : ResponseLocals) (line : Bytes) : ResponseLocals :=
  let v := { v with resp := { v.resp with body := v.resp.body ++ line } }
  if v.chunkLength < line.length + 2 then { v with badRequest := true }
  else
    { v with
      chunkLength := v.chunkLength - (line.length + 2)
      chunkedStatus :=
        if v.chunkLength - (line.length + 2) = 0 then .length else v.chunkedStatus }

/-- A line with text, in the four states of the chunk parser. -/
def textLine (v : ResponseLocals) (line : Bytes) : ResponseLocals :=
  match v.chunkedStatus with
  | .none | .done => headerWords.line v line
  | .length => v.chunkLengthLine line
  | .content => v.chunkContentLine line

/-- The last chunk of a chunked message has not been met. -/
def unfinished (v : ResponseLocals) : Bool :=
  v.chunkedTransfer && decide (v.chunkedStatus ≠ .done)

def emptyLine (v : ResponseLocals) : ResponseLocals :=
  { v with
    crlfCounter := v.crlfCounter + 1
    chunkedStatus := if v.unfinished then .length else v.chunkedStatus }

def line (v : ResponseLocals) (line : Bytes) : ResponseLocals :=
  if v.badRequest || v.lengthError then v
  else
    let v :=
      if v.lineNo = 0 then v.statusLine line
      else if line ≠ [] then { v.textLine line with crlfCounter := 1 }
      else v.emptyLine
    { v with
      protocolLength := wrap (v.protocolLength + (line.length + 2))
      lineNo := v.lineNo + 1 }

/-- The local variables behind the loop over the lines. -/
def read (part : Bytes) : ResponseLocals :=
  let v := (split crlf part).foldl ResponseLocals.line initial
  if v.crlfCounter < 2 then { v with badRequest := true } else v

/-- Not all of the declared content is there, in the arithmetic of the code. -/
def incomplete (v : ResponseLocals) (complete : Bytes) : Bool :=
  v.contentLengthSet && decide (complete.length < wrap (v.protocolLength + v.contentLength))

/-- What is returned behind the loop. -/
def result (v : ResponseLocals) (complete : Bytes) (len : ℕ) : ParseOutcome HttpResponse :=
  if v.lengthError then .lengthError
  else if v.badRequest then
    .failed .badRequest
      (if v.incomplete complete then wrap (len + v.contentLength) else (complete.take len).length)
  else if v.unfinished then .failed .chunked len
  else if v.incomplete complete then .failed .incompleteRequest len
  else if v.chunkedTransfer then .parsed v.resp len
  else copyContent complete len v.contentLength fun body => { v.resp with body := body }

end ResponseLocals

def parseResponse (complete : Bytes) (len : ℕ) : ParseOutcome HttpResponse :=
  (ResponseLocals.read (complete.take len)).result complete len

end Ichor
