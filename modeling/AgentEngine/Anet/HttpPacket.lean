import AgentEngine.Anet.AllocBuffer
import AgentEngine.Lib.CString
import AgentEngine.Lib.SortedMap

/-!
`HTTPPacket` (`httppacket.cpp`): the fields of an HTTP message, its setters, and how it is
written.

A string is the list of its bytes without the NUL, and `none` is `NULL`. Memory does not run
out: `strdup` and `appendBody` always succeed.
-/

namespace AgentEngine.Anet

open Lib

inductive HTTPPacketType where
  | request
  | response
  | invalid
deriving DecidableEq, Repr

inductive HTTPVersion where
  | http10
  | http11
  | unsupported
deriving DecidableEq, Repr

inductive HTTPMethod where
  | options
  | head
  | get
  | post
  | put
  | delete
  | trace
  | connect
  | unsupported
deriving DecidableEq, Repr

namespace HTTPMethod

def name : HTTPMethod → Option (List UInt8)
  | options => some (ascii "OPTIONS")
  | head => some (ascii "HEAD")
  | get => some (ascii "GET")
  | post => some (ascii "POST")
  | put => some (ascii "PUT")
  | delete => some (ascii "DELETE")
  | trace => some (ascii "TRACE")
  | connect => some (ascii "CONNECT")
  | unsupported => none

/-- The methods in the order in which `setMethod` tries their names. -/
def named : List HTTPMethod := [get, post, head, options, put, delete, trace, connect]

end HTTPMethod

/-- `keyCompareCaseInsensive`: keys are compared byte by byte after `tolower`. -/
def keyCompareCaseInsensive (key : List UInt8) : List Nat := key.map fun c => (tolower c).toNat

abbrev HTTPHeaders := SortedMap (List UInt8) (List UInt8) keyCompareCaseInsensive

theorem HTTPHeaders.sorted_nil : ([] : List (List UInt8 × List UInt8)).Pairwise
    fun e e' => keyCompareCaseInsensive e.1 < keyCompareCaseInsensive e'.1 := .nil

theorem noStatus : (0 : Nat) = 0 ∨ 100 ≤ 0 ∧ 0 < 600 := .inl rfl

/-- An `HTTPPacket`. Its status code is 0 or has three digits, as `setStatusCode` leaves it. -/
structure HTTPPacket where
  type : HTTPPacketType := .invalid
  version : HTTPVersion := .http11
  method : HTTPMethod := .unsupported
  uri : Option (List UInt8) := none
  statusCode : Nat := 0
  reasonPhrase : Option (List UInt8) := none
  extendMethod : Option (List UInt8) := none
  headers : HTTPHeaders := { sorted := HTTPHeaders.sorted_nil }
  addContentLengthHeader : Bool := true
  body : List UInt8 := []
  validStatus : statusCode = 0 ∨ 100 ≤ statusCode ∧ statusCode < 600 := by first | exact noStatus | decide
deriving DecidableEq

namespace HTTPPacket

/-! ### Fields -/

/-- `strdupTrimed`: blanks are cut off, but the last byte that is left stays. -/
def strdupTrimed (str : List UInt8) (front back : Bool) : Option (List UInt8) :=
  let keep := fun s : List UInt8 => if s = [] then [32] else s
  let str := cstr str
  if str = [] then none
  else
    let str := if front then keep (str.dropWhile (· == 32)) else str
    let str := if back then keep (str.rdropWhile (· == 32)) else str
    if str = [32] then none else some str

variable (p : HTTPPacket)

/-- `setMethod(HTTPMethod)`. -/
def setHTTPMethod (method : HTTPMethod) : HTTPPacket :=
  { p with method, type := .request }

/-- `setMethod(const char *)`. -/
def setMethod (method : List UInt8) : HTTPPacket :=
  match HTTPMethod.named.find? fun m => m.name = some (cstr method) with
  | some m => p.setHTTPMethod m
  | none => { p.setHTTPMethod .unsupported with extendMethod := some (cstr method) }

@[simp] theorem body_setMethod (method : List UInt8) : (p.setMethod method).body = p.body := by
  unfold setMethod
  split <;> rfl

def getMethodString : Option (List UInt8) := p.method.name.or p.extendMethod

def setURI (uri : Option (List UInt8)) : HTTPPacket :=
  { p with uri := uri.bind (strdupTrimed · true true) }

def setReasonPhrase (reasonPhrase : Option (List UInt8)) : HTTPPacket :=
  { p with reasonPhrase := reasonPhrase.bind (strdupTrimed · true false) }

def getReasonPhrase : List UInt8 :=
  match p.reasonPhrase with
  | some reasonPhrase => reasonPhrase
  | none =>
      if p.statusCode = 200 then ascii "OK"
      else if p.statusCode = 404 then ascii "NOT FOUND"
      else ascii "UNKNOWN"

def setStatusCode (statusCode : Int) : HTTPPacket :=
  if h : statusCode < 100 ∨ statusCode ≥ 600 then
    { p with statusCode := 0, type := .response, validStatus := .inl rfl }
  else { p with statusCode := statusCode.toNat, type := .response, validStatus := by omega }

@[simp] theorem body_setStatusCode (statusCode : Int) :
    (p.setStatusCode statusCode).body = p.body := by
  unfold setStatusCode
  split <;> rfl

/-- `addHeader`, which replaces a header of the same name. -/
def addHeader (key value : List UInt8) : HTTPPacket :=
  { p with headers := (p.headers.erase (cstr key)).insert (cstr key) (cstr value) }

def getHeader (key : List UInt8) : Option (List UInt8) := p.headers.find key

def appendBody (bytes : List UInt8) : HTTPPacket :=
  { p with body := p.body ++ bytes }

/-! ### Encoding -/

variable (garbage : Nat → UInt8) (output : AllocBuffer)

/-- What is written for the version. -/
def versionString : List UInt8 :=
  if p.version = .http10 then ascii "HTTP/1.0" else ascii "HTTP/1.1"

def encodeStartLine : Option (Bool × AllocBuffer) :=
  if p.type = .request then
    match p.getMethodString, p.uri with
    | some methodStr, some uri => do
        return (true, ← output.writeStrings garbage
          [methodStr, ascii " ", uri, ascii " ", p.versionString, [13, 10]])
    | _, _ => return (false, output)
  else if p.statusCode = 0 then return (false, output)
  else do
    return (true, ← output.writeStrings garbage
      [p.versionString, ascii " ", (decimal p.statusCode).take 3, ascii " ", p.getReasonPhrase,
        [13, 10]])

/-- One header line. -/
def encodeHeader (output : AllocBuffer) (header : List UInt8 × List UInt8) : Option AllocBuffer :=
  output.writeStrings garbage [header.1, ascii ": ", header.2, [13, 10]]

def CONTENT_LENGTH : List UInt8 := ascii "Content-Length"

def encodeHeaders : Option AllocBuffer := do
  let output ← p.headers.entries.foldlM (encodeHeader garbage) output
  let output ←
    if p.addContentLengthHeader ∧ p.getHeader CONTENT_LENGTH = none then
      output.writeString garbage (CONTENT_LENGTH ++ ascii ": " ++ decimal p.body.length ++ [13, 10])
    else some output
  output.writeString garbage [13, 10]

def encodeBody : Option AllocBuffer :=
  if p.body.length > 0 then output.writeString garbage p.body else some output

def encode : Option (Bool × AllocBuffer) := do
  let (ok, output) ← p.encodeStartLine garbage output
  if ok then
    let output ← p.encodeHeaders garbage output
    return (true, ← p.encodeBody garbage output)
  else return (false, output)

end HTTPPacket

end AgentEngine.Anet
