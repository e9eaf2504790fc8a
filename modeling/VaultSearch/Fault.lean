/-!
# Faults

What can go wrong, one constructor per cause, and the wording of each.
A `Rejection` is a reason to refuse a stored snapshot; a `Fault` is any
other failure or a refused snapshot; a `SourceFault` is what a document
source reports, which `SourceFault.toFault` turns into a fault.
-/

namespace VaultSearch

/-- Why a stored snapshot cannot be used. -/
inductive Rejection where
  | shortHeader
  | badMagic
  | version (found : Nat)
  | truncatedFingerprint
  | fingerprintNotUtf8
  | otherSettings (stored running : String)
  | checksum
  | decompression
  | payload
  | liveCount
  | danglingPosting
  | described (reason : String)
  deriving Repr, DecidableEq

/-- The version of the snapshot format that this library writes and reads. -/
def snapshotVersion : Nat := 1

def Rejection.message : Rejection → String
  | shortHeader => "blob is shorter than the header"
  | badMagic => "invalid magic bytes"
  | version found => s!"format version {found} (expected {snapshotVersion})"
  | truncatedFingerprint => "truncated fingerprint"
  | fingerprintNotUtf8 => "fingerprint is not UTF-8"
  | otherSettings stored running =>
    s!"built with tokenizer settings {stored} (running {running})"
  | checksum => "checksum mismatch"
  | decompression => "decompression failed"
  | payload => "payload decode failed"
  | liveCount => "live document count mismatch"
  | danglingPosting => "posting refers to a missing document"
  | described reason => reason

/-- Why an operation of the library failed. -/
inductive Fault where
  | notReady
  | snapshotIncompatible (reason : Rejection)
  | unsupportedContent (path : String)
  | documentNotFound (path : String)
  | segmenterUnavailable
  | invalidCommand (command : String)
  | config (reason : String)
  | io (detail : String)
  | serialization (detail : String)
  | internal (detail : String)
  deriving Repr, DecidableEq

namespace Fault

def message : Fault → String
  | notReady => "index is not ready: a rebuild is in progress"
  | snapshotIncompatible reason => s!"snapshot is incompatible: {reason.message}"
  | unsupportedContent path => s!"content of {path} cannot be indexed"
  | documentNotFound path => s!"document not found: {path}"
  | segmenterUnavailable => "CJK segmenter is not initialized"
  | invalidCommand command => s!"unknown query command: {command}"
  | config reason => s!"configuration error: {reason}"
  | io detail => s!"I/O error: {detail}"
  | serialization detail => s!"serialization error: {detail}"
  | internal detail => s!"internal error: {detail}"

/-- Whether the index has to be built anew from the documents. -/
def requiresReindex : Fault → Bool
  | snapshotIncompatible _ => true
  | _ => false

/-- Whether the operation has a degraded way on or can be tried again. -/
def isRecoverable : Fault → Bool
  | notReady | snapshotIncompatible _ | unsupportedContent _ | segmenterUnavailable
  | invalidCommand _ | io _ => true
  | documentNotFound _ | config _ | serialization _ | internal _ => false

end Fault

/-- What a document source reports: a fault of the library, an input or output
error, or any other failure as a chain of descriptions, outermost first. -/
inductive SourceFault where
  | fault (f : Fault)
  | io (detail : String)
  | other (chain : List String)
  deriving Repr, DecidableEq

def SourceFault.toFault : SourceFault → Fault
  | fault f => f
  | io detail => .io detail
  | other chain => .internal (": ".intercalate chain)

end VaultSearch
