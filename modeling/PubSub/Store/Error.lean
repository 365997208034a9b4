/-!
# What can go wrong with stored data
-/

namespace PubSub

/-- A failure of the store, with what is known about it. -/
inductive StoreError where
  | notOpened (reason : String)
  | keyspaceNotOpened (reason : String)
  | invalidBucket (name : String)
  | notEncoded (reason : String)
  | notDecoded (reason : String)
  | notWritten (reason : String)
  | notRead (reason : String)
  | notSynced (reason : String)
  deriving DecidableEq, Repr

def StoreError.message : StoreError → String
  | notOpened reason => "failed to open persistence database: " ++ reason
  | keyspaceNotOpened reason => "failed to open keyspace: " ++ reason
  | invalidBucket name => s!"invalid bucket name '{name}'"
  | notEncoded reason => "serialization error: " ++ reason
  | notDecoded reason => "deserialization error: " ++ reason
  | notWritten reason => "write error: " ++ reason
  | notRead reason => "read error: " ++ reason
  | notSynced reason => "sync error: " ++ reason

/-- What the store answers to a write. -/
inductive WriteAnswer where
  | written
  | notEncoded (reason : String)
  | notWritten (reason : String)
  deriving DecidableEq, Repr

/-- What keeps a record from being written. -/
def WriteAnswer.failure? : WriteAnswer → Option StoreError
  | written => none
  | notEncoded reason => some (.notEncoded reason)
  | notWritten reason => some (.notWritten reason)

/-- A queue is closed, or its store failed. -/
inductive QueueError where
  | closed (queue : String)
  | store (e : StoreError)
  deriving DecidableEq, Repr

def QueueError.message : QueueError → String
  | closed queue => s!"queue {queue} is closed"
  | store e => e.message

end PubSub
