import ServiceClient.Json.Document

/-!
What a queue service takes and gives for one message, as JSON documents.
-/

namespace ServiceClient.Queue

open Text (Octets)

structure Message where
  queue : String
  body : String
  deriving DecidableEq, Repr

namespace Message

def shape : Json.Shape :=
  .record false false [("QueueName", true, .string), ("MessageBody", true, .string)]

def ofJson (j : Json) : Message :=
  ⟨(j.member "QueueName").string?.getD "", (j.member "MessageBody").string?.getD ""⟩

def read (body : Octets) : Except JsonFault Message :=
  (shape.readDocument body).map ofJson

def write (m : Message) : Octets :=
  Json.writeDocument (.object [("QueueName", .string m.queue), ("MessageBody", .string m.body)])

end Message

structure Receipt where
  messageId : String
  deriving DecidableEq, Repr

namespace Receipt

def shape : Json.Shape := .record false false [("MessageId", true, .string)]

def ofJson (j : Json) : Receipt := ⟨(j.member "MessageId").string?.getD ""⟩

def read (body : Octets) : Except JsonFault Receipt :=
  (shape.readDocument body).map ofJson

end Receipt

end ServiceClient.Queue
