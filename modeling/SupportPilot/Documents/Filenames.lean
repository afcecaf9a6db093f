import Mathlib.Data.List.Infix
import SupportPilot.Domain
import SupportPilot.Lib.Scan

/-! # File names and media types

`sanitize_filename` and `validate_media_type` of `packages/documents/service.py`,
with the parts of `pathlib.PurePath` they use. -/

namespace SupportPilot.Documents

open Lib

/-! ## Paths -/

/-- `PurePath(path).name`: the last component; empty ones and `.` do not count. -/
def pathName (path : Text) : Text :=
  ((path.splitOn '/').filter fun part => part ≠ [] && part ≠ ['.']).getLastD []

/-- The position of the last dot, if it is neither the first nor the last
character. -/
def suffixStart (name : Text) : Option Nat :=
  let rest := name.reverse.dropWhile (· ≠ '.')
  if 1 < rest.length ∧ rest.length < name.length then some (rest.length - 1) else none

/-- `PurePath(path).suffix`. -/
def pathSuffix (path : Text) : Text :=
  match suffixStart (pathName path) with
  | some i => (pathName path).drop i
  | none => []

/-- `PurePath(path).stem`. -/
def pathStem (path : Text) : Text :=
  match suffixStart (pathName path) with
  | some i => (pathName path).take i
  | none => pathName path

variable [UnicodeTables]

/-! ## Sanitising -/

/-- `_SAFE_FILENAME`. -/
def unsafeRun : Regex :=
  Regex.plus (.char fun c => !(isWord c || c = '.' || c = '(' || c = ')' || c = ' ' || c = '-'))

/-- `text.strip(" .")`. -/
def stripDots (text : Text) : Text :=
  (text.dropWhile fun c => c = ' ' || c = '.').rdropWhile fun c => c = ' ' || c = '.'

def sanitizeFilename (filename : Option Text) : Text :=
  let given := match filename with
    | none | some [] => "upload".toList
    | some name => name
  let normalized := UnicodeTables.nfkc given
  let leaf := pathName (normalized.map fun c => if c = '\\' then '/' else c)
  let printable := leaf.filter UnicodeTables.isPrintable
  let cleaned := stripDots (Regex.sub unsafeRun ['_'] printable)
  (if cleaned = [] then "upload".toList else cleaned).take 255

/-! ## Media types -/

/-- `_MEDIA_BY_EXTENSION`. -/
def mediaByExtension : List (Text × List Text) :=
  [(".pdf".toList, ["application/pdf".toList]),
    (".txt".toList, ["text/plain".toList]),
    (".md".toList, ["text/markdown".toList, "text/plain".toList]),
    (".html".toList, ["text/html".toList]),
    (".htm".toList, ["text/html".toList])]

/-- `bytes.decode("utf-8")`. -/
def decodeUtf8 (bytes : Bytes) : Option Text :=
  (ByteArray.mk bytes.toArray).utf8Decode?.map Array.toList

/-- `b"%PDF-"`. -/
def pdfSignature : Bytes := [0x25, 0x50, 0x44, 0x46, 0x2D]

def validateMediaType (filename : Text) (declaredType : Option Text) (prefixBytes : Bytes) :
    Except PyError Text := do
  let extension := UnicodeTables.lower (pathSuffix filename)
  let some acceptedTypes := mediaByExtension.lookup extension
    | throw (.uploadRejected "supported file types are PDF, Markdown, text, and HTML")
  let normalizedType :=
    UnicodeTables.lower (strip ((declaredType.getD []).takeWhile (· ≠ ';')))
  if normalizedType ∉ acceptedTypes then
    throw (.uploadRejected "declared media type does not match the file extension")
  if extension = ".pdf".toList then
    if ¬ pdfSignature <+: prefixBytes then
      throw (.uploadRejected "PDF signature is missing or invalid")
    return "application/pdf".toList
  if 0 ∈ prefixBytes then
    throw (.uploadRejected "text documents cannot contain binary null bytes")
  let some decoded := decodeUtf8 prefixBytes
    | throw (.uploadRejected "text documents must be UTF-8 encoded")
  if extension ∈ [".html".toList, ".htm".toList] ∧ '<' ∉ decoded then
    throw (.uploadRejected "HTML content does not contain an HTML tag")
  return acceptedTypes.headD []

end SupportPilot.Documents
