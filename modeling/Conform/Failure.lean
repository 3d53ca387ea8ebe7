import Conform.Document
import Conform.Json.Printer
import Conform.Yaml.Cursor

/-!
Everything that can go wrong, by cause, with the words for it. A failure that was met while another
task was under way keeps the failure it comes from, so that the wording and the family of a failure
are functions of its cause.
-/
namespace Conform

/-- Why a reference leads nowhere. -/
inductive Unresolved where
  /-- No resource has the name. -/
  | resource (ref : Text)
  /-- The pointer names nothing inside the resource. -/
  | pointer (pointer : Text) (within : Document)
  | anchor (name : Text) (within : Document)
  /-- The anchor has a slash, so it may have been meant as a pointer. -/
  | anchorForm (name : Text)

/-- Why a file or directory could not be used. -/
inductive AccessFault where
  | missing
  | notDirectory
  | isDirectory
  | nameTooLong
deriving DecidableEq, Repr

/-- The settings that have to be positive numbers. -/
inductive Quantity where
  | fileSize
  | concurrency
  | timeout
  | workers
deriving DecidableEq, Repr

inductive Failure where
  -- documents
  | malformedData
  | malformedSchema
  | scalar (fault : Yaml.Fault)
  /-- A date has no form as JSON. -/
  | notJson
  /-- A text with `count` surrogates in a row, from a position on, has no form as UTF-8. -/
  | notUtf8 (first : Point) (start count : Nat)
  -- schemas
  | unsupportedDraft (declared : Text)
  | nonconforming (pointer reason : Text)
  /-- Found before any data was looked at. -/
  | deadReference (ref : Text) (why : Unresolved)
  /-- Found when a check followed the reference; `named` says whether the message names the class
  of the failure. -/
  | deadEnd (named : Bool) (why : Unresolved)
  /-- A name that was in scope has no resource. -/
  | resourceGone (uri : Text)
  | unreadableReference
  /-- A segment of a pointer into a list is no number. -/
  | segmentNotNumber (segment : Text)
  /-- A pointer goes on below a value that has no parts. -/
  | noParts (kind : Text)
  | unknownType (type : Text)
  | badPattern
  | tooLarge
  /-- A number was needed and NaN was there. -/
  | notWhole
  /-- A keyword's value is not of the type that the keyword needs. -/
  | unsuitable
  | endless
  -- looking up schemas
  | unknownMetaSchema (id : Text)
  | schemaNotFound (name path : Text)
  | pathNotFound (path : Text)
  | referenceConflict (id path existing : Text)
  | refDirTraversal (raw : Text)
  | refDirMissing (path : Text)
  | refDirNotDirectory (path : Text)
  | refSchemaUnreadable (path : Text) (fault : AccessFault)
  -- files and limits
  | access (fault : AccessFault) (path : Text)
  | nulInPath
  | pathTraversal (raw : Text)
  | escapesRoot (target root : Text)
  | unsafePath (label raw : Text)
  | outsideAllowed (path : Text) (allowed : List Text)
  | overSize (path : Text) (limit size : Nat)
  | notPositive (quantity : Quantity)
  | batchTimeout (seconds : Text)
  | timeout (seconds : Text)
  | cancelled
  -- mapping manifests
  | manifestField (path reason : Text)
  | manifestValidator (cause : Failure)
  | manifestPathTraversal (raw : Text)
  | manifestOutside (path root : Text)
  | manifestUnreadable (path : Text) (cause : Failure)
  | manifestMalformed (path : Text) (cause : Failure)
  | manifestInvalid (path reasons : Text)
  | manifestVersion (version expected : Text)
  -- signature manifests
  | signatureField (path reason : Text)
  | signaturesMalformed (source : Text)
  | signaturesNotFound (path : Text)
  | signaturesUnreadable (path : Text) (cause : Failure)
  | signatureDirectory (path : Text) (cause : Failure)
  | signaturePattern (id pattern reason : Text)
  -- suites
  | suiteResolution (mode : Text)
  | suiteDataMissing
  | suiteNotPositive (quantity : Quantity)
  | suiteDataTraversal (raw : Text)
  | suiteRootTraversal (raw : Text)
  | suiteRootMissing (root : Text)
  | suiteManifest (cause : Failure)
  | suiteTimeout (seconds : Text)
  -- settings, logs and the command line
  | unknownSettings (names : List Text)
  /-- The home directory of a user is not known. -/
  | noSuchUser
  | emptyLogLevel
  | unsupportedLogLevel (level : Text)
  | noSuchLogLevel (level : Text)
  | emptyCorrelation (key : Text)
  /-- A field has a name that describes the event itself. -/
  | reservedField (key : Text)
  /-- A command cannot be carried out as it was given. -/
  | usage (reason : Text)

namespace Unresolved

/-- The class of the failure. -/
def name : Unresolved → Text
  | resource _ => "Unresolvable"
  | pointer .. => "PointerToNowhere"
  | anchor .. => "NoSuchAnchor"
  | anchorForm _ => "InvalidAnchor"

def message : Unresolved → Text
  | resource ref => ref
  | pointer p within =>
    p.quoted ++ " does not exist within " ++ within.display ++
      (if p == "/" then
        Text.ofString (". The pointer '/' is a valid JSON Pointer but it points to an empty string "
          ++ "property ''. If you intended to point to the entire resource, you should use '#'.")
      else [])
  | anchor n within => n.quoted ++ " does not exist within " ++ within.display
  | anchorForm n =>
    "'#" ++ n ++ "' is not a valid anchor, neither as a plain name anchor nor as a JSON Pointer. "
      ++ "You may have intended to use '#/" ++ n
      ++ "', as the slash is required *before each segment* of a JSON pointer."

end Unresolved

namespace AccessFault

def message : AccessFault → Text
  | missing => "[Errno 2] No such file or directory"
  | notDirectory => "[Errno 20] Not a directory"
  | isDirectory => "[Errno 21] Is a directory"
  | nameTooLong => "[Errno 36] File name too long"

end AccessFault

namespace Quantity

def name : Quantity → Text
  | fileSize => "max_file_size"
  | concurrency => "max_concurrency"
  | timeout => "timeout_seconds"
  | workers => "max_workers"

def mustBePositive (q : Quantity) : Text := q.name ++ " must be > 0"

end Quantity

namespace Failure

/-- What stands for the reasons of both readers when neither could read a text. -/
def bothReaders : Text := "YAML err: malformed YAML, JSON err: malformed JSON"

def scalarMessage : Yaml.Fault → Text
  | .malformed => "malformed YAML"
  | .escapeRange code =>
    if code < 0x80000000 then "chr() arg not in range(0x110000)"
    else "code point out of range"
  | .notInteger base digits =>
    "invalid literal for int() with base " ++ Text.ofNat base ++ ": " ++ digits.quoted
  | .tooManyDigits count =>
    "Exceeds the limit (4300 digits) for integer string conversion: value has " ++ Text.ofNat count
      ++ " digits; use sys.set_int_max_str_digits() to increase the limit"
  | .longNumber =>
    "Exceeds the limit (4300 digits) for integer string conversion; "
      ++ "use sys.set_int_max_str_digits() to increase the limit"
  | .notFloat digits => "could not convert string to float: " ++ digits.quoted
  | .emptyNumber => "string index out of range"
  | .notBoolean word => word.quoted
  | .notMoment => "'NoneType' object has no attribute 'groupdict'"
  | .noSuchMoment fault => fault.message
  | .endless => "maximum recursion depth exceeded"

/-- What it means for writing that a document has a part in it that JSON cannot write. -/
def ofObstacle : Json.Obstacle → Failure
  | .moment => notJson
  | .longNumber => scalar .longNumber

def traversal (raw : Text) : Text := "path traversal detected: " ++ raw

/-- The words for a failure. -/
def message : Failure → Text
  | malformedData => "failed to parse data bytes (tried YAML then JSON): " ++ bothReaders
  | malformedSchema => "invalid schema format (must be valid YAML or JSON): " ++ bothReaders
  | scalar fault => scalarMessage fault
  | notJson => "Object of type date is not JSON serializable"
  | notUtf8 first start count =>
    if count ≤ 1 then
      "'utf-8' codec can't encode character " ++ Text.quoted [first] ++ " in position "
        ++ Text.ofNat start ++ ": surrogates not allowed"
    else
      "'utf-8' codec can't encode characters in position " ++ Text.ofNat start ++ "-"
        ++ Text.ofNat (start + count - 1) ++ ": surrogates not allowed"
  | unsupportedDraft declared =>
    "unsupported $schema draft " ++ declared.quoted ++ ": only Draft-07 and 2020-12 are supported"
  | nonconforming pointer reason =>
    "schema does not conform to its meta-schema at " ++ pointer ++ ": " ++ reason
  | deadReference ref why => "unresolvable $ref " ++ ref.quoted ++ ": " ++ why.message
  | deadEnd named why =>
    "unresolvable $ref: " ++ (if named then why.name ++ ": " ++ why.message else why.message)
  | resourceGone uri => uri.quoted
  | unreadableReference => "Invalid IPv6 URL"
  | segmentNotNumber segment => "invalid literal for int() with base 10: " ++ segment.quoted
  | noParts kind => "'" ++ kind ++ "' object is not subscriptable"
  | unknownType type => "unknown type " ++ type.quoted
  | badPattern => "malformed pattern"
  | tooLarge => "number too large"
  | notWhole => "cannot convert float NaN to integer"
  | unsuitable => "unsuitable value of a keyword"
  | endless => "maximum recursion depth exceeded"
  | unknownMetaSchema id => "schema-id " ++ id ++ " not supported for validation"
  | schemaNotFound name path =>
    "schema " ++ name.quoted ++ " not found (looked up " ++ path ++ ")"
  | pathNotFound path => "embedded schema not found: " ++ path
  | referenceConflict id path existing =>
    "duplicate schema $id \"" ++ id ++ "\": " ++ path ++ " differs from " ++ existing
  | refDirTraversal raw => "invalid ref-dir " ++ raw ++ ": " ++ traversal raw
  | refDirMissing path => "ref-dir " ++ path ++ ": no such file or directory"
  | refDirNotDirectory path => "ref-dir " ++ path ++ " is not a directory"
  | refSchemaUnreadable path fault =>
    "read ref schema " ++ path ++ ": " ++ fault.message ++ ": " ++ path.quoted
  | access fault path => fault.message ++ ": " ++ path.quoted
  | nulInPath => "embedded null byte"
  | pathTraversal raw => traversal raw
  | escapesRoot target root => "path " ++ target ++ " escapes root " ++ root
  | unsafePath label raw => label ++ " sanitization failed: " ++ traversal raw
  | outsideAllowed path allowed =>
    "path " ++ path ++ " not in allowed directories: "
      ++ (Document.list (allowed.map .text)).display
  | overSize path limit size =>
    "file " ++ path ++ " exceeds max size " ++ Text.ofNat limit ++ " bytes (actual: "
      ++ Text.ofNat size ++ ")"
  | notPositive q => q.mustBePositive
  | batchTimeout seconds => "batch validation timed out after " ++ seconds ++ " seconds"
  | timeout seconds => "operation timed out after " ++ seconds ++ " seconds"
  | cancelled => "file validation cancelled"
  | manifestField path reason => path ++ ": " ++ reason
  | manifestValidator cause => "load embedded manifest validator: " ++ message cause
  | manifestPathTraversal raw => "invalid manifest path " ++ raw.quoted ++ ": " ++ traversal raw
  | manifestOutside path root =>
    "manifest path " ++ path ++ " escapes repository root " ++ root
  | manifestUnreadable path cause => "read manifest " ++ path ++ ": " ++ message cause
  | manifestMalformed path cause => "validate manifest " ++ path ++ ": " ++ message cause
  | manifestInvalid path reasons => "manifest " ++ path ++ " failed validation: " ++ reasons
  | manifestVersion version expected =>
    "unsupported schema mapping manifest version " ++ version.quoted ++ " (expected " ++ expected
      ++ ")"
  | signatureField path reason => path ++ ": " ++ reason
  | signaturesMalformed source => "parse signature manifest " ++ source ++ ": malformed YAML"
  | signaturesNotFound path => "embedded signature manifest not found: " ++ path
  | signaturesUnreadable path cause =>
    "read signature manifest " ++ path ++ ": " ++ message cause
  | signatureDirectory path cause =>
    "read signature overlay directory " ++ path ++ ": " ++ message cause
  | signaturePattern id pattern reason =>
    "signature " ++ id.quoted ++ ": invalid regex " ++ pattern.quoted ++ ": " ++ reason
  | suiteResolution mode =>
    "invalid --schema-resolution: " ++ mode ++ " (use prefer-id, id-strict, path-only)"
  | suiteDataMissing => "--data is required"
  | suiteNotPositive q => q.mustBePositive
  | suiteDataTraversal raw => "invalid --data " ++ raw.quoted ++ ": " ++ traversal raw
  | suiteRootTraversal raw => "invalid data root " ++ raw.quoted ++ ": " ++ traversal raw
  | suiteRootMissing root => "data root " ++ root ++ ": no such directory"
  | suiteManifest cause => "load schema mapping manifest: " ++ message cause
  | suiteTimeout seconds => "validation suite timed out after " ++ seconds ++ " seconds"
  | unknownSettings names => "unknown settings override(s): " ++ Text.join ", " names
  | noSuchUser => "Could not determine home directory."
  | emptyLogLevel => "GONEAT_LOG_LEVEL must be a non-empty string"
  | unsupportedLogLevel level => "unsupported log level " ++ level.quoted
  | noSuchLogLevel level => "unsupported logging level " ++ level.quoted
  | emptyCorrelation key => "correlation value for " ++ key.quoted ++ " must not be empty"
  | reservedField key => "\"Attempt to overwrite " ++ key.quoted ++ " in LogRecord\""
  | usage reason => reason

/-- Whether the failure is one of the library's own subject: schemas, data, manifests and suites. A
batch or a suite reports such failures and goes on; all others end it. -/
def isDomain : Failure → Bool
  | malformedData | malformedSchema | unsupportedDraft _ | nonconforming .. | deadReference ..
  | deadEnd .. | unknownMetaSchema _ | schemaNotFound .. | pathNotFound _ | referenceConflict ..
  | refDirTraversal _ | refDirMissing _ | refDirNotDirectory _ | refSchemaUnreadable ..
  | unsafePath .. | outsideAllowed .. | overSize .. | batchTimeout _
  | manifestField .. | manifestValidator _ | manifestPathTraversal _ | manifestOutside ..
  | manifestUnreadable .. | manifestMalformed .. | manifestInvalid .. | manifestVersion ..
  | signatureField .. | signaturesMalformed _ | signaturesNotFound _ | signaturesUnreadable ..
  | signatureDirectory ..
  | signaturePattern .. | suiteResolution _ | suiteDataMissing | suiteNotPositive _
  | suiteDataTraversal _ | suiteRootTraversal _ | suiteRootMissing _ | suiteManifest _
  | suiteTimeout _ => true
  | _ => false

/-- Whether a file or directory could not be used. -/
def isAccess : Failure → Bool
  | access .. => true
  | _ => false

end Failure
end Conform
