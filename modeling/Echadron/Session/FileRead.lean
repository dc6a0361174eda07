import Echadron.Base.TextEncoding

namespace Echadron.Session
open Lib Base

/-! Windows of a file, as a session reads them. -/

def FS_READ_MAX_BYTES : Nat := 10 * 1024 * 1024

def FS_BINARY_SAMPLE_BYTES : Nat := 4096

def UTF16_TRANSCODE_SLACK_BYTES : Nat := 64

def UTF16_MAX_BOUNDED_WINDOW : Nat := FS_READ_MAX_BYTES

inductive FsReadEncoding where
  | auto
  | utf8
  | base64
deriving DecidableEq

structure FsReadRequest where
  path : String
  offset : Nat
  length : Nat
  encoding : FsReadEncoding
deriving DecidableEq

/-- A file inside the workspace, with what its path and its times tell of it. -/
structure HostFile where
  rel : String
  isDirectory : Bool
  bytes : Bytes
  etag : String
  mime : Bool → String
  languageId : Option String

inductive FsReadError where
  | isDirectory (path : String)
  | tooLarge (path : String) (size : Nat)
  | isBinary (path : String)
deriving DecidableEq

/-- Text, or the bytes that are sent as base64. -/
inductive FsContent where
  | utf8 (text : List Char)
  | base64 (bytes : Bytes)
deriving DecidableEq

structure FsReadResponse where
  path : String
  content : FsContent
  size : Nat
  truncated : Bool
  etag : String
  mime : String
  isBinary : Bool
  languageId : Option String
  lineCount : Option Nat
deriving DecidableEq

def countLines (text : List Char) : Nat :=
  if text.isEmpty then 0 else 1 + text.count '\n' - if text.getLast? = some '\n' then 1 else 0

namespace HostFile

def size (file : HostFile) : Nat := file.bytes.length

def readBytes (file : HostFile) (n : Nat) : Bytes := file.bytes.take n

def rawWanted (file : HostFile) (windowEnd : Nat) : Nat × Bool :=
  let bounded := windowEnd * 2 + UTF16_TRANSCODE_SLACK_BYTES
  if windowEnd ≤ UTF16_MAX_BOUNDED_WINDOW ∧ bounded < file.size then (bounded - bounded % 2, true)
  else (file.size, false)

end HostFile

def subarray (bytes : Bytes) (first last : Nat) : Bytes := (bytes.take last).drop first

def effectiveLength (req : FsReadRequest) (totalLength : Nat) : Int := min (req.length : Int) (totalLength - req.offset)

section

variable (file : HostFile) (req : FsReadRequest)

def readWindow (transcodeEncoding : Option UtfTextEncoding) : Bytes × Bool :=
  match transcodeEncoding with
  | some encoding =>
    let wanted := file.rawWanted (req.offset + req.length)
    let decodedBytes := utf8 (decodeUtfText (file.readBytes wanted.1) encoding)
    let length := effectiveLength req decodedBytes.length
    (if length ≤ 0 then [] else subarray decodedBytes req.offset (req.offset + length.toNat),
      wanted.2 || req.offset + length < decodedBytes.length)
  | none =>
    let length := effectiveLength req file.size
    (if length ≤ 0 then []
      else subarray (file.readBytes (req.offset + length.toNat)) req.offset (req.offset + length.toNat),
      req.offset + length < file.size)

def FsReadResponse.of (isBinary : Bool) (window : Bytes × Bool) : FsReadResponse :=
  let content :=
    if req.encoding = .base64 ∨ (req.encoding = .auto ∧ isBinary) then .base64 window.1
    else .utf8 (utf8ToString window.1)
  { path := file.rel
    content
    size := file.size
    truncated := window.2
    etag := file.etag
    mime := file.mime isBinary
    isBinary
    languageId :=
      match content with
      | .utf8 _ => file.languageId
      | .base64 _ => none
    lineCount :=
      match content with
      | .utf8 text => some (countLines text)
      | .base64 _ => none }

def read : Except FsReadError FsReadResponse :=
  if file.isDirectory then .error (.isDirectory req.path)
  else if FS_READ_MAX_BYTES < file.size then .error (.tooLarge req.path file.size)
  else
    let classification := classifyTextSample (file.readBytes (min FS_BINARY_SAMPLE_BYTES file.size))
    let transcodeEncoding :=
      if !classification.isBinary ∧ classification.encoding ≠ .utf8 ∧ req.encoding ≠ .base64 then
        some classification.encoding
      else none
    let isBinary := classification.isBinary || (classification.encoding ≠ .utf8 && transcodeEncoding.isNone)
    if isBinary ∧ req.encoding = .utf8 then .error (.isBinary req.path)
    else .ok (FsReadResponse.of file req isBinary (readWindow file req transcodeEncoding))

end

end Echadron.Session
