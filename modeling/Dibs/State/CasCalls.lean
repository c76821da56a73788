import Dibs.Lib.Run
import Dibs.State.HashTable

/-! The CAS table as a transition system: its public operations as calls with all their arguments
    (the clock included), the table each one leaves, and the answer its caller gets. What a whole
    sequence of calls does is then a matter of `Run`. -/

namespace Dibs

/-- A call of the CAS table. The handle table is an argument of the one call that reads it. -/
inductive CasCall where
  | recordReader (now : Time) (path : Path) (hash : Bytes) (sid : ℕ)
  | updateReader (now : Time) (sid : ℕ) (path : Path) (hash : Bytes)
  | ensureEntry (now : Time) (path : Path)
  | checkAndAcquireWrite (now : Time) (path : Path) (fh sid : ℕ) (handles : HandleTable)
      (actual : Bytes)
  | releaseWrite (path : Path) (fh : ℕ)
  | hasActiveWriter (path : Path)
  | getReaderHash (sid : ℕ) (path : Path)
  | remove (path : Path)
  | rename (old new : Path)
  | evictOlderThan (now : Time) (seconds : ℕ)

inductive CasAnswer where
  | done
  /-- `Utc::now() - duration` left the range of dates -/
  | panicked
  | decision (r : Except CasError Unit)
  | writer (b : Bool)
  | receipt (hash : Option Bytes)

namespace CasTable

/-- The table after a call. -/
def call (t : CasTable) : CasCall → CasTable
  | .recordReader now path hash sid => t.recordReader now path hash sid
  | .updateReader now sid path hash => t.updateReader now sid path hash
  | .ensureEntry now path => t.ensureEntry now path
  | .checkAndAcquireWrite now path fh sid handles actual =>
    (t.checkAndAcquireWrite now path fh sid handles actual).1
  | .releaseWrite path fh => t.releaseWrite path fh
  | .hasActiveWriter _ => t
  | .getReaderHash _ _ => t
  | .remove path => t.remove path
  | .rename old new => t.rename old new
  | .evictOlderThan now seconds => (t.evictOlderThan now seconds).getD t

/-- What the caller gets. -/
def answer (t : CasTable) : CasCall → CasAnswer
  | .checkAndAcquireWrite now path fh sid handles actual =>
    .decision (t.checkAndAcquireWrite now path fh sid handles actual).2
  | .hasActiveWriter path => .writer (t.hasActiveWriter path)
  | .getReaderHash sid path => .receipt (t.getReaderHash sid path)
  | .evictOlderThan now seconds => if (t.evictOlderThan now seconds).isSome then .done else .panicked
  | _ => .done

end CasTable

namespace CasCall

/-- The paths a call names; a pass of the eviction thread names none. -/
def paths : CasCall → List Path
  | .recordReader _ path _ _ => [path]
  | .updateReader _ _ path _ => [path]
  | .ensureEntry _ path => [path]
  | .checkAndAcquireWrite _ path _ _ _ _ => [path]
  | .releaseWrite path _ => [path]
  | .hasActiveWriter path => [path]
  | .getReaderHash _ path => [path]
  | .remove path => [path]
  | .rename old new => [old, new]
  | .evictOlderThan _ _ => []

end CasCall

end Dibs
