namespace Avionics.Exchange

inductive Family
  | afdx | a429 | can | discrete | analogue | nad
  deriving DecidableEq

def Family.tag : Family → String
  | .afdx => "AFDX"
  | .a429 => "A429"
  | .can => "CAN"
  | .discrete => "DISCRETE"
  | .analogue => "ANALOGUE"
  | .nad => "NAD"

inductive RecordKind
  | afdxSampling | afdxQueuing
  | a429Sampling | a429Queuing
  | canSampling
  | discreteSignal
  | analogueSignal
  | nadMessage
  deriving DecidableEq

namespace RecordKind

def family : RecordKind → Family
  | .afdxSampling | .afdxQueuing => .afdx
  | .a429Sampling | .a429Queuing => .a429
  | .canSampling => .can
  | .discreteSignal => .discrete
  | .analogueSignal => .analogue
  | .nadMessage => .nad

def tag : RecordKind → String
  | .afdxSampling | .canSampling => "SamplingMessage"
  | .afdxQueuing => "QueuingMessage"
  | .a429Sampling => "SamplingLabel"
  | .a429Queuing => "QueuingLabel"
  | .discreteSignal | .analogueSignal => "Signal"
  | .nadMessage => "Message"

def required : RecordKind → List String
  | .afdxSampling => ["Name", "LocalName", "MessageSizeBytes", "ValidityDurationUs"]
  | .afdxQueuing => ["Name", "LocalName", "MaxSizeBytes", "QueueDepth"]
  | .a429Sampling => ["Number", "Sdi", "LocalName", "ValidityDurationUs"]
  | .a429Queuing => ["Number", "Sdi", "LocalName", "QueueDepth"]
  | .canSampling => ["Id", "LocalName", "MessageSizeBytes", "ValidityDurationUs"]
  | .discreteSignal => ["Name", "LocalName"]
  | .analogueSignal => ["Name", "LocalName", "ScaleFactor", "Offset"]
  | .nadMessage => ["Name", "LocalName", "MessageSizeBytes"]

def optional : RecordKind → List String
  | .afdxSampling | .a429Sampling | .canSampling => ["PeriodUs"]
  | .afdxQueuing | .a429Queuing => []
  | .discreteSignal => ["TrueState", "FalseState", "HWPP", "PeriodUs", "ValidityDurationUs"]
  | .analogueSignal => ["PeriodUs", "ValidityDurationUs"]
  | .nadMessage => ["PeriodUs", "MessageType", "MessageDimension1", "MessageDimension2"]

/-- The place of the key among the required attributes: labels are known by their local
name, all other records by the first attribute. -/
def key : (kind : RecordKind) → Fin kind.required.length
  | .a429Sampling | .a429Queuing => ⟨2, by decide⟩
  | .afdxSampling | .afdxQueuing | .canSampling | .discreteSignal | .analogueSignal | .nadMessage =>
    ⟨0, by decide⟩

theorem names_nodup (kind : RecordKind) : (kind.required ++ kind.optional).Nodup := by
  cases kind <;> decide

end RecordKind

end Avionics.Exchange
