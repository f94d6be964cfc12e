import IndexSync.Text.Quoted

/-! Everything that can go wrong, by its cause, and the text that says so. -/
namespace IndexSync

/-- Kinds of outages: faults that come from outside, such as a lost connection. A fatal one is
meant to end the program, and only cleanup may stand between it and the caller. -/
inductive OutageKind
  | connection | runtime | value | key | lookup | fatal
  deriving DecidableEq, Repr

structure Outage where
  kind : OutageKind
  text : Option String
  deriving DecidableEq, Repr

/-- Parts of dates and times. -/
inductive DatePart
  | year (n : Nat)
  | month | day | hour | minute | second
  deriving DecidableEq, Repr

/-- A value is no number, no identifier, no date, no truth value, or has no text. -/
inductive ConversionError
  | malformedInteger (base : Nat) (shown : String)
  | integerTooLong (digits : Nat)
  | integerTextTooLong
  | undefinedNumber
  | infiniteNumber
  | notNumeric (typeName : String)
  | malformedUuid
  | malformedNumber (shown : String)
  | emptyNumber
  | unknownTruth (text : String)
  | outsideCalendar (part : DatePart)
  | outsideDay (minutes : Int)
  | notATime
  | noSuchCharacter
  | hugeCharacter
  deriving DecidableEq, Repr

/-- Encoders of ids: how they are put together, and which ids they refuse. -/
inductive EncodingError
  | noParts
  | emptySeparator
  | partCount (expected got : Nat)
  | pieceCount (expected : Nat) (text : String)
  | partHoldsSeparator (part separator : String)
  | notIterable (typeName : String)
  deriving DecidableEq, Repr

/-- Registries of index mappings. -/
inductive MappingError
  | noOwnField (typeName : String)
  | mappedTwice (typeName : String)
  | unencodedField (field : String)
  | unencodedFieldOf (mapping field typeName : String)
  deriving DecidableEq, Repr

/-- References to classes by import path. -/
inductive ReferenceError
  | malformed (reference : String)
  | unresolved (reference : String)
  | notAClass (reference : String)
  deriving DecidableEq, Repr

/-- Declarations of watched entities. -/
inductive DeclarationError
  | noCaptureTable
  | noEntity (table : String)
  | noIdColumns (table : String)
  | blankIdColumn (table : String)
  | noEventTypeColumn (table : String)
  | noKeyColumn (table : String)
  | noSourceTable (table className : String)
  | declaredTwice (table : String)
  deriving DecidableEq, Repr

/-- Trigger sources and creation strategies. -/
inductive TriggerError
  | noSource
  | sourceNotFound (name : String)
  | notASourceClass (name : String)
  | notASource (className : String)
  | unknownStrategy (shown : String)
  deriving DecidableEq, Repr

/-- Database addresses. -/
inductive UrlError
  | malformed
  | unsupported
  | notSet
  deriving DecidableEq, Repr

/-- Configuration files and settings. A fault in the text of a file has a place, unless it is a
character that no such file may hold. -/
inductive SettingsError
  | malformedFile (path : String) (place : Option (Nat × Nat))
  | rootNotMapping (path : String)
  | invalid (problems : List String)
  deriving DecidableEq, Repr

/-- Reads of the merge cursor. -/
inductive CursorError
  | noCurrentEvent
  | notAscending (source : String) (key after : Int)
  deriving DecidableEq, Repr

/-- Arguments outside their range. -/
inductive RangeError
  | pageSize
  | limit
  | batchSizeSetting
  | pageSizeSetting
  | delaySetting
  | negativeDelay
  | idValues (expected : Nat) (table : String) (got : Nat)
  | noTriggerFor (event : String)
  | invalidAddress
  | invalidFutureAddress
  | shortAddress
  | notAnAddress (host : String)
  | disguisedMark (network : String)
  deriving DecidableEq, Repr

/-- Calls at the wrong time. -/
inductive StateError
  | transactionClosed
  | sessionOpen
  | sessionNotOpen
  | syncClosed (name : String)
  | noEntities (name : String)
  deriving DecidableEq, Repr

/-- Statements and rows that the database refuses. -/
inductive StoreError
  | refused (reason : String)
  | constraint (reason : String)
  | wrongKeySize (columns : List String)
  | unmappedType
  deriving DecidableEq, Repr

/-- Drivers of database addresses. -/
inductive DriverError
  | unreadableUrl
  | unknown
  | notAsync
  | tooManyParts
  | notAFile (url : String)
  deriving DecidableEq, Repr

inductive Failure
  | outage (outage : Outage)
  | conversion (cause : ConversionError)
  | encoding (cause : EncodingError)
  | mapping (cause : MappingError)
  | reference (cause : ReferenceError)
  | declaration (cause : DeclarationError)
  | trigger (cause : TriggerError)
  | url (cause : UrlError)
  | settings (cause : SettingsError)
  | cursor (cause : CursorError)
  | range (cause : RangeError)
  | state (cause : StateError)
  | store (cause : StoreError)
  | driver (cause : DriverError)
  | dispatch (count : Nat) (reason : String)
  | noAttribute (typeName name : String)
  | noSuchOperation (typeName operation : String)
  | unhashable (typeName : String)
  | relativeReference
  | abstractSource
  | noIdValue
  | nonTextSetting
  | unreadableEnvironment (field : String)
  | directory
  | notUtf8
  deriving DecidableEq, Repr

def OutageKind.name : OutageKind → String
  | connection => "ConnectionError"
  | runtime => "RuntimeError"
  | value => "ValueError"
  | key => "KeyError"
  | lookup => "LookupError"
  | fatal => "Fatal"

def OutageKind.ofName? (name : String) : Option OutageKind :=
  [connection, runtime, value, key, lookup, fatal].find? (·.name = name)

/-- The text of an outage. A missing key is quoted. -/
def Outage.message (o : Outage) : String :=
  match o.text with
  | none => ""
  | some text => if o.kind = .key then Text.Quoted.text text else text

/-- What is wrong with a part of a date. -/
def DatePart.message : DatePart → String
  | year n => s!"year {n} is out of range"
  | month => "month must be in 1..12"
  | day => "day is out of range for month"
  | hour => "hour must be in 0..23"
  | minute => "minute must be in 0..59"
  | second => "second must be in 0..59"

/-- A span of minutes in days and seconds. -/
def spanText (minutes : Int) : String :=
  let days := minutes / (24 * 60)
  let seconds := minutes % (24 * 60) * 60
  let parts := [("days", days), ("seconds", seconds)].filter (·.2 ≠ 0)
  "datetime.timedelta(" ++ String.intercalate ", " (parts.map fun (name, n) => s!"{name}={n}") ++ ")"

def ConversionError.message : ConversionError → String
  | malformedInteger base shown => s!"invalid literal for int() with base {base}: {shown}"
  | integerTooLong digits =>
    "Exceeds the limit (4300 digits) for integer string conversion: " ++
      s!"value has {digits} digits; use sys.set_int_max_str_digits() to increase the limit"
  | integerTextTooLong =>
    "Exceeds the limit (4300 digits) for integer string conversion; " ++
      "use sys.set_int_max_str_digits() to increase the limit"
  | undefinedNumber => "cannot convert float NaN to integer"
  | infiniteNumber => "cannot convert float infinity to integer"
  | notNumeric typeName =>
    "int() argument must be a string, a bytes-like object or a real number, " ++
      s!"not '{typeName}'"
  | malformedUuid => "badly formed hexadecimal UUID string"
  | malformedNumber shown => s!"could not convert string to float: {shown}"
  | emptyNumber => "string index out of range"
  | unknownTruth text => Text.Quoted.text text
  | outsideCalendar part => part.message
  | outsideDay minutes =>
    "offset must be a timedelta strictly between -timedelta(hours=24) and timedelta(hours=24), " ++
      s!"not {spanText minutes}."
  | notATime => "not a time"
  | noSuchCharacter => "chr() arg not in range(0x110000)"
  | hugeCharacter => "Python int too large to convert to C int"

def EncodingError.message : EncodingError → String
  | noParts => "CompositeIdEncoder needs at least one part encoder"
  | emptySeparator => "separator must be non-empty"
  | partCount expected got => s!"expected {expected} id parts, got {got}"
  | pieceCount expected text => s!"expected {expected} id parts in {Text.Quoted.text text}"
  | partHoldsSeparator part separator =>
    s!"id part {Text.Quoted.text part} contains separator {Text.Quoted.text separator}"
  | notIterable typeName => s!"'{typeName}' object is not iterable"

def MappingError.message : MappingError → String
  | noOwnField typeName =>
    s!"index mapping for {typeName} has no id field for the indexed type itself"
  | mappedTwice typeName => s!"{typeName} is mapped more than once"
  | unencodedField field =>
    s!"no two-way value encoder registered for string field {Text.Quoted.text field}"
  | unencodedFieldOf mapping field typeName =>
    s!"{mapping}: string id field {Text.Quoted.text field} for {typeName} " ++
      "has no two-way value encoder"

def ReferenceError.message : ReferenceError → String
  | malformed reference =>
    s!"Invalid entity reference {Text.Quoted.text reference}; expected 'package.module:Class'"
  | unresolved reference =>
    s!"Entity reference {Text.Quoted.text reference} could not be resolved"
  | notAClass reference =>
    s!"Entity reference {Text.Quoted.text reference} does not name a class"

def DeclarationError.message : DeclarationError → String
  | noCaptureTable => "Watched entity is missing its capture table name"
  | noEntity table =>
    s!"Capture table {Text.Quoted.text table} does not reference an originating entity"
  | noIdColumns table => s!"Capture table {Text.Quoted.text table} has no id column mapping"
  | blankIdColumn table =>
    s!"Capture table {Text.Quoted.text table} has an id mapping without capture or source column"
  | noEventTypeColumn table =>
    s!"Capture table {Text.Quoted.text table} has no event type column"
  | noKeyColumn table => s!"Capture table {Text.Quoted.text table} has no ordering key column"
  | noSourceTable table className =>
    s!"Capture table {Text.Quoted.text table}: source table not given and " ++
      s!"{className} is not a mapped SQLAlchemy class"
  | declaredTwice table =>
    s!"Capture table {Text.Quoted.text table} is declared more than once"

def TriggerError.message : TriggerError → String
  | noSource => "No trigger source configured"
  | sourceNotFound name => s!"Trigger source {Text.Quoted.text name} could not be found"
  | notASourceClass name =>
    s!"Trigger source {Text.Quoted.text name} is not a TriggerSQLSource class"
  | notASource className => s!"{className} is not a TriggerSQLSource"
  | unknownStrategy shown => s!"Unknown trigger creation strategy {shown}"

def UrlError.message : UrlError → String
  | malformed => "Database URL must look like 'dialect[+driver]://...'."
  | unsupported =>
    "Database URL must be PostgreSQL, MySQL or SQLite, or name an explicit async driver."
  | notSet => "Database URL not set. Set TRIGGERSEARCH_DATABASE_URL or pass database_url."

def SettingsError.message : SettingsError → String
  | malformedFile path none => s!"Invalid YAML at {path}"
  | malformedFile path (some (line, column)) => s!"Invalid YAML at {path}:{line}:{column}"
  | rootNotMapping path => s!"Config root must be mapping: {path}"
  | invalid problems =>
    "Invalid triggersearch configuration: " ++ String.intercalate "; " problems

def CursorError.message : CursorError → String
  | noCurrentEvent => "merge cursor has no current event; call advance() first"
  | notAscending source key after =>
    s!"source {Text.Quoted.text source} returned key {key} after {after}; " ++
      "pages must be strictly ascending"

def RangeError.message : RangeError → String
  | pageSize => "page_size must be >= 1"
  | limit => "limit must be >= 0"
  | batchSizeSetting => "batch_size must be a positive integer"
  | pageSizeSetting => "page_size must be a positive integer"
  | delaySetting => "delay_seconds must be > 0"
  | negativeDelay => "delays must be >= 0"
  | idValues expected table got => s!"expected {expected} id values for {table}, got {got}"
  | noTriggerFor event => s!"no trigger for event type {event}"
  | invalidAddress => "Invalid IPv6 URL"
  | invalidFutureAddress => "IPvFuture address is invalid"
  | shortAddress => "An IPv4 address cannot be in brackets"
  | notAnAddress host =>
    s!"{Text.Quoted.text host} does not appear to be an IPv4 or IPv6 address"
  | disguisedMark network =>
    s!"netloc '{network}' contains invalid characters under NFKC normalization"

def StateError.message : StateError → String
  | transactionClosed => "index transaction already committed or rolled back"
  | sessionOpen => "entity provider is already open"
  | sessionNotOpen => "entity provider is not open; call open() first"
  | syncClosed name => s!"search sync {Text.Quoted.text name} is closed"
  | noEntities name =>
    s!"search sync {Text.Quoted.text name} has no entity provider; cannot apply events"

def StoreError.message : StoreError → String
  | refused reason => reason
  | constraint reason => reason
  | wrongKeySize columns =>
    "Incorrect number of values in identifier to formulate primary key for session.get(); " ++
      "primary key columns are " ++ String.intercalate "," (columns.map fun c => s!"'{c}'")
  | unmappedType => "No inspection system is available for object of type <class 'type'>"

def DriverError.message : DriverError → String
  | unreadableUrl => "Could not parse SQLAlchemy URL from given URL string"
  | unknown => "Can't load plugin"
  | notAsync => "The driver blocks while it waits for the database."
  | tooManyParts => "too many values to unpack (expected 2)"
  | notAFile url =>
    s!"Invalid SQLite URL: {url}\nValid SQLite URL forms are " ++
      "sqlite:///:memory: or sqlite:////absolute/path/to/file.db"

def Failure.message : Failure → String
  | outage o => o.message
  | conversion c => c.message
  | encoding c => c.message
  | mapping c => c.message
  | reference c => c.message
  | declaration c => c.message
  | trigger c => c.message
  | url c => c.message
  | settings c => c.message
  | cursor c => c.message
  | range c => c.message
  | state c => c.message
  | store c => c.message
  | driver c => c.message
  | dispatch count reason => s!"Dispatch of {count} capture events failed: {reason}"
  | noAttribute typeName name => s!"'{typeName}' object has no attribute '{name}'"
  | noSuchOperation typeName operation => s!"'{typeName}' object has no attribute '{operation}'"
  | unhashable typeName => s!"unhashable type: '{typeName}'"
  | relativeReference => "relative to nothing"
  | abstractSource => "Can't instantiate abstract class TriggerSQLSource"
  | noIdValue => "tuple index out of range"
  | nonTextSetting => "keywords must be strings"
  | unreadableEnvironment field =>
    s!"error parsing value for field \"{field}\" from source \"EnvSettingsSource\""
  | directory => "Is a directory"
  | notUtf8 => "invalid start byte"

/-- Whether the failure is a fault of the configuration: of mappings, references, declarations,
triggers, addresses or settings. -/
def Failure.isConfiguration : Failure → Bool
  | mapping _ | reference _ | declaration _ | trigger _ | url _ | settings _ => true
  | _ => false

/-- Whether an attribute was not there. -/
def Failure.isAttribute : Failure → Bool
  | noAttribute .. | noSuchOperation .. => true
  | _ => false

/-- Whether the failure must reach the caller through everything but cleanup. -/
def Failure.isFatal : Failure → Bool
  | outage o => o.kind = .fatal
  | _ => false

/-- The text that names a failure as the reason of another: its message, or its kind when the
message is empty. -/
def Failure.reason (f : Failure) : String :=
  if f.message.isEmpty then
    match f with
    | outage o => o.kind.name
    | _ => f.message
  else f.message

end IndexSync
