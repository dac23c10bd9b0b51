import PageLog.Id

/-!
# What can go wrong

Every operation that can fail reports an `Error`: a kind, which callers act on, and the cause
behind it.  Causes are listed here one by one, and the wording of each is fixed in one place; a
cause whose wording is supplied from outside (by a coordinator, or by whoever completes an update)
is carried as it is.

## Main definitions

* `IoFault` — a refusal of the file itself.
* `Damage`, `Misuse`, `FormatFault`, `StructureFault`, `Unsupported`, `Breach` — the causes, by
  kind.
* `Error` and `Error.message` — a failure and its text.
-/

namespace PageLog

/-! ### The file -/

/-- Why the file refused a call, as far as a reader of the log has to know. -/
inductive IoKind where
  /-- The bytes asked for lie past the end of the file. -/
  | endOfFile
  /-- The caller may not do that to the file. -/
  | permissionDenied
  /-- Anything else. -/
  | other
  deriving DecidableEq, Repr, Inhabited

/-- A refusal of the file. -/
structure IoFault where
  /-- The kind of refusal. -/
  kind : IoKind
  /-- Its text. -/
  text : String
  deriving DecidableEq, Repr, Inhabited

/-- A read that reaches past the end of the file. -/
def IoFault.pastEnd : IoFault := ⟨.endOfFile, "read_at reached EOF"⟩

/-! ### Causes -/

/-- Stored or transmitted bytes that are not what their format allows. -/
inductive Damage where
  /-- A field lies outside the page. -/
  | fieldOutOfBounds
  /-- A variable-length number stops in the middle. -/
  | varintTruncated
  /-- A variable-length number does not fit into 64 bits. -/
  | varintOverflow
  /-- A variable-length number does not end after ten bytes. -/
  | varintTooLong
  /-- A record stops in the middle of a field. -/
  | recordTruncated
  /-- Bytes are left over after a record. -/
  | trailingBytes
  /-- No record type has this code. -/
  | unknownRecordType
  /-- The page type in a record does not fit into 16 bits. -/
  | recordIoType
  /-- The page version in a record does not fit into 16 bits. -/
  | recordIoVersion
  /-- The flag of a snapshot record is neither zero nor one. -/
  | snapshotFlag
  /-- The log file is shorter than its header. -/
  | logHeaderTruncated
  /-- The log file has become shorter than its header. -/
  | logHeaderLost
  /-- The log file does not begin with the mark of a log. -/
  | logMagic
  /-- The log file is of another format version. -/
  | logVersion
  /-- Reserved bytes of the log header are not zero. -/
  | logReserved
  /-- The log header does not have its checksum. -/
  | logHeaderCrc
  /-- The log belongs to another store. -/
  | logSalt
  /-- A frame is numbered below the first number of the log. -/
  | frameBelowStart
  /-- A page is too short for the common header. -/
  | pageTooShort
  /-- A node claims more slots than fit. -/
  | countPastCapacity
  /-- Following the chain leads back to a node already seen. -/
  | chainCycle
  /-- No transaction state has this code. -/
  | unknownTxState
  /-- A message of another type than expected. -/
  | messageType
  /-- A message with another number of fields than expected. -/
  | messageFields
  /-- A message stops in the middle. -/
  | messageTruncated
  /-- Damage reported in the reporter's own words. -/
  | reported (text : String)
  deriving DecidableEq, Repr, Inhabited

/-- Arguments that an operation does not accept. -/
inductive Misuse where
  /-- A field lies outside the page. -/
  | fieldOutOfBounds
  /-- A log record is empty or too long. -/
  | payloadSize
  /-- An append gave back no frame. -/
  | noFrame
  /-- The log cannot be cut inside its header. -/
  | truncateBelowHeader
  /-- The log can only be cut where a frame ends. -/
  | truncateInsideFrame
  /-- Pages must have a certain size. -/
  | pageSizeTooSmall
  /-- The group has pages of another size. -/
  | groupSizeConflict
  /-- The null page holds nothing. -/
  | nullPage
  /-- The group has used up all page numbers. -/
  | pageIdsExhausted
  /-- The buffer does not hold a whole page. -/
  | bufferBelowPageSize
  /-- The buffer does not hold a whole page of the group. -/
  | bufferBelowGroupSize
  /-- Only formats of free-list nodes can be registered. -/
  | notNodeFormat
  /-- The version is taken. -/
  | formatRegistered
  /-- The slot lies past the end of the page. -/
  | slotPastCapacity
  /-- The slot is not in use. -/
  | slotPastCount
  /-- The slot before is not in use. -/
  | slotGap
  /-- No slot is left. -/
  | nodeFull
  /-- Only the last slot can be removed by position. -/
  | removalNotLast
  /-- Page deltas are logged together with their effect. -/
  | deltaLoggedAlone
  /-- A batch consists of page deltas. -/
  | wholeRecordInBatch
  /-- A whole record has no page to be applied to. -/
  | wholeRecordApplied
  /-- A free list begins at a page. -/
  | nullHead
  /-- The null page cannot be freed. -/
  | freeNull
  /-- Misuse reported in the reporter's own words. -/
  | reported (text : String)
  deriving DecidableEq, Repr, Inhabited

/-- Misuse that is described with the particular value at fault. -/
inductive ValueMisuse where
  /-- The page is in the free list already. -/
  | alreadyFree (page : PageId)
  /-- The page carries the free list itself. -/
  | isNode (page : PageId)
  /-- The field of a transaction's update has been given before. -/
  | fieldSet (name : String)
  /-- Misuse reported in the reporter's own words. -/
  | reported (text : String)
  deriving DecidableEq, Repr, Inhabited

/-- Why the format of a page does not serve. -/
inductive FormatFault where
  /-- The page is of another type. -/
  | notNode
  /-- Nothing is registered for the version. -/
  | unknownVersion
  /-- The page is still blank. -/
  | neverInitialized
  /-- A record was written for another format than the page has. -/
  | recordDisagrees
  /-- A fault reported in the reporter's own words. -/
  | reported (text : String)
  deriving DecidableEq, Repr, Inhabited

/-- How the structure that pages form together is broken. -/
inductive StructureFault where
  /-- A node does not point back to the node before it. -/
  | prevPointer (found expected : PageId)
  /-- A page is in the free list twice. -/
  | referencedTwice
  /-- The header of a page names another page. -/
  | headerNames (page : PageId)
  /-- A node that should be new is in use. -/
  | nodeInUse (count : Nat)
  /-- A fault reported in the reporter's own words. -/
  | reported (text : String)
  deriving DecidableEq, Repr, Inhabited

/-- Operations that a value does not have. -/
inductive Unsupported where
  /-- A whole record changes no page. -/
  | wholeRecordDelta
  /-- A version that stands alone cannot be replaced. -/
  | versionReadOnly
  /-- An operation named in the reporter's own words. -/
  | reported (text : String)
  deriving DecidableEq, Repr, Inhabited

/-- Breaches of the order in which a transaction is to be used. -/
inductive Breach where
  /-- A transaction gets its handle once. -/
  | handleSet
  /-- A transaction without a handle has nobody to acknowledge to. -/
  | noHandle
  /-- A transaction that was rolled back cannot be committed. -/
  | rolledBack
  /-- A breach reported in the reporter's own words. -/
  | reported (text : String)
  deriving DecidableEq, Repr, Inhabited

/-- A failure. -/
inductive Error where
  /-- The file refused. -/
  | io (fault : IoFault)
  /-- The file refused while a record for a page was handled. -/
  | ioFailure (group : GroupId) (page : PageId) (record : String) (fault : IoFault)
  /-- A page is of no format that serves. -/
  | corruptPageFormat (ioType ioVersion : UInt16) (fault : FormatFault)
  /-- Pages do not fit together. -/
  | structuralInvariant (group : GroupId) (page : PageId) (fault : StructureFault)
  /-- The operation does not exist for this value. -/
  | unsupported (what : Unsupported)
  /-- A wait was given up. -/
  | timeout (operation : String) (after : Duration)
  /-- Bytes are damaged. -/
  | corruption (damage : Damage)
  /-- An argument was refused. -/
  | invalid (misuse : Misuse)
  /-- A particular argument was refused. -/
  | invalidValue (misuse : ValueMisuse)
  /-- The coordinator refused. -/
  | coordinator (text : String)
  /-- Steps came in the wrong order. -/
  | contractViolation (breach : Breach)
  /-- There is no such thing. -/
  | notFound
  deriving DecidableEq, Repr, Inhabited

/-- A value or a failure. -/
abbrev Result := Except Error

/-- A step that reads and changes a state `σ` and may fail; what it changed before it failed stays
changed. -/
abbrev Act (σ : Type) := EStateM Error σ

/-! ### Texts -/

/-- What is damaged. -/
def Damage.text : Damage → String
  | .fieldOutOfBounds => "page field out of bounds"
  | .varintTruncated => "varint truncated"
  | .varintOverflow => "varint overflows 64 bits"
  | .varintTooLong => "varint longer than 10 bytes"
  | .recordTruncated => "record truncated"
  | .trailingBytes => "trailing bytes after record"
  | .unknownRecordType => "unknown wal record type"
  | .recordIoType => "record io type out of range"
  | .recordIoVersion => "record io version out of range"
  | .snapshotFlag => "snapshot full flag not boolean"
  | .logHeaderTruncated => "wal header truncated"
  | .logHeaderLost => "wal truncated header"
  | .logMagic => "wal magic mismatch"
  | .logVersion => "wal format version mismatch"
  | .logReserved => "wal reserved header bytes non-zero"
  | .logHeaderCrc => "wal header crc mismatch"
  | .logSalt => "wal salt mismatch"
  | .frameBelowStart => "wal frame lsn below start_lsn"
  | .pageTooShort => "page shorter than common header"
  | .countPastCapacity => "free-list node count exceeds capacity"
  | .chainCycle => "free list cycle"
  | .unknownTxState => "unknown tx state"
  | .messageType => "unexpected direct message type"
  | .messageFields => "unexpected direct message field count"
  | .messageTruncated => "direct message truncated"
  | .reported text => text

/-- What was refused. -/
def Misuse.text : Misuse → String
  | .fieldOutOfBounds => "page field out of bounds"
  | .payloadSize => "wal record payload size out of range"
  | .noFrame => "wal append produced no frame"
  | .truncateBelowHeader => "wal truncate below file header"
  | .truncateInsideFrame => "wal truncate offset is not a frame boundary"
  | .pageSizeTooSmall => "page size below minimum"
  | .groupSizeConflict => "group already registered with another page size"
  | .nullPage => "null page id"
  | .pageIdsExhausted => "group page ids exhausted"
  | .bufferBelowPageSize => "page buffer smaller than page size"
  | .bufferBelowGroupSize => "page buffer smaller than group page size"
  | .notNodeFormat => "handler is not a free-list node format"
  | .formatRegistered => "free-list node version already registered"
  | .slotPastCapacity => "free-list slot index past capacity"
  | .slotPastCount => "free-list slot index past count"
  | .slotGap => "free-list slot write leaves a gap"
  | .nodeFull => "free-list node is full"
  | .removalNotLast => "positional removal must target the last slot"
  | .deltaLoggedAlone => "page deltas go through log_and_apply"
  | .wholeRecordInBatch => "batch contains a whole record"
  | .wholeRecordApplied => "whole records carry no page delta"
  | .nullHead => "free list head is the null page"
  | .freeNull => "cannot free the null page"
  | .reported text => text

/-- The field names of a transaction's update stand between grave accents in texts. -/
def quotedName (name : String) : String :=
  let mark := String.singleton (Char.ofNat 96)
  mark ++ name ++ mark

/-- What was refused. -/
def ValueMisuse.text : ValueMisuse → String
  | .alreadyFree page => s!"page {PageId.text page} is already free"
  | .isNode page => s!"page {PageId.text page} is a free-list node"
  | .fieldSet name => s!"tx update field {quotedName name} is already set"
  | .reported text => text

/-- What is wrong with the format. -/
def FormatFault.text : FormatFault → String
  | .notNode => "page is not a free-list node"
  | .unknownVersion => "no handler registered for page version"
  | .neverInitialized => "page was never initialized"
  | .recordDisagrees => "record format disagrees with page header"
  | .reported text => text

/-- What is wrong with the structure. -/
def StructureFault.text : StructureFault → String
  | .prevPointer found expected =>
      s!"prev pointer is {PageId.text found}, expected {PageId.text expected}"
  | .referencedTwice => "data page referenced twice by the free list"
  | .headerNames page => s!"page header names page {PageId.text page}"
  | .nodeInUse count => s!"new free-list node already holds {count} slot(s)"
  | .reported text => text

/-- What does not exist. -/
def Unsupported.text : Unsupported → String
  | .wholeRecordDelta => "whole records carry no page delta"
  | .versionReadOnly => "mvcc version is read-only"
  | .reported text => text

/-- Which order was breached. -/
def Breach.text : Breach → String
  | .handleSet => "transaction already holds a concurrency handle"
  | .noHandle => "transaction has no concurrency handle"
  | .rolledBack => "transaction already rolled back"
  | .reported text => text

/-- The text of a failure. -/
def Error.message : Error → String
  | .io fault => s!"IO: {fault.text}"
  | .ioFailure group page record fault =>
      s!"IO failure on group {GroupId.text group} page {PageId.text page} " ++
        s!"while handling {record}: {fault.text}"
  | .corruptPageFormat ioType ioVersion fault =>
      s!"corrupt page format (type={ioType.toNat}, version={ioVersion.toNat}): {fault.text}"
  | .structuralInvariant group page fault =>
      s!"structural invariant violated on group {GroupId.text group} " ++
        s!"page {PageId.text page}: {fault.text}"
  | .unsupported what => s!"unsupported operation: {what.text}"
  | .timeout operation after => s!"{operation} timed out after {after.text}"
  | .corruption damage => s!"corruption: {damage.text}"
  | .invalid misuse => s!"invalid argument: {misuse.text}"
  | .invalidValue misuse => s!"invalid argument: {misuse.text}"
  | .coordinator text => s!"coordinator: {text}"
  | .contractViolation breach => s!"contract violation: {breach.text}"
  | .notFound => "not found"

/-- The name of the kind of a failure. -/
def Error.kind : Error → String
  | .io .. => "Io"
  | .ioFailure .. => "IoFailure"
  | .corruptPageFormat .. => "CorruptPageFormat"
  | .structuralInvariant .. => "StructuralInvariant"
  | .unsupported .. => "Unsupported"
  | .timeout .. => "Timeout"
  | .corruption .. => "Corruption"
  | .invalid .. => "Invalid"
  | .invalidValue .. => "InvalidOwned"
  | .coordinator .. => "Coordinator"
  | .contractViolation .. => "ContractViolation"
  | .notFound => "NotFound"

/-- A failure reported from outside by its kind and text, for the kinds that consist of a text. -/
def Error.ofReport? (kind text : String) : Option Error :=
  match kind with
  | "Unsupported" => some (.unsupported (.reported text))
  | "Corruption" => some (.corruption (.reported text))
  | "Invalid" => some (.invalid (.reported text))
  | "InvalidOwned" => some (.invalidValue (.reported text))
  | "Coordinator" => some (.coordinator text)
  | "ContractViolation" => some (.contractViolation (.reported text))
  | "NotFound" => some .notFound
  | _ => none

/-- Only a wait that was given up is worth repeating. -/
def Error.isRetryable : Error → Bool
  | .timeout .. => true
  | _ => false

/-! ### Steps -/

/-- A result as a step that leaves the state alone. -/
def Act.ofResult {σ α : Type} (r : Result α) : Act σ α := fun s =>
  match r with
  | .ok a => .ok a s
  | .error e => .error e s

@[simp] theorem Act.ofResult_ok {σ α : Type} (a : α) (s : σ) :
    Act.ofResult (.ok a) s = .ok a s := rfl

@[simp] theorem Act.ofResult_error {σ α : Type} (e : Error) (s : σ) :
    Act.ofResult (α := α) (.error e) s = .error e s := rfl

/-- A look at the state, which may find it wanting. -/
def Act.look {σ α : Type} (f : σ → Result α) : Act σ α := fun s =>
  match f s with
  | .ok a => .ok a s
  | .error e => .error e s

/-- A step on a part of the state: `get` reads the part and `set` puts it back. -/
def Act.on {σ τ α : Type} (get : σ → τ) (set : σ → τ → σ) (act : Act τ α) : Act σ α := fun s =>
  match act (get s) with
  | .ok a t => .ok a (set s t)
  | .error e t => .error e (set s t)

/-- A step with its failure put into other words. -/
def Act.mapError {σ α : Type} (f : Error → Error) (act : Act σ α) : Act σ α := fun s =>
  match act s with
  | .ok a t => .ok a t
  | .error e t => .error (f e) t

/-- A step whose failure is a value to go on with. -/
def Act.attempt {σ α : Type} (act : Act σ α) : Act σ (Result α) := fun s =>
  match act s with
  | .ok a t => .ok (.ok a) t
  | .error e t => .ok (.error e) t

end PageLog
