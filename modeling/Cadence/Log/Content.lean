import Cadence.Archive.Gzip

/-!
What log files hold.
-/

namespace Cadence.Log

/-- What a file holds. Compression keeps all of it. -/
inductive Content
  | plain (data : Bytes)
  | packed (content : Content)
  deriving DecidableEq, Repr

namespace Content

/-- What bytes stand for in a file that is meant to be compressed. Bytes that are no archive stand for
themselves. -/
def ofBytes (data : Bytes) : Content :=
  match Archive.Gzip.decode data with
  | some data => .packed (.plain data)
  | none => .plain data

/-- The bytes of a file. -/
def bytes : Content → Bytes
  | plain data => data
  | packed content => Archive.Gzip.encode content.bytes

end Content

end Cadence.Log
