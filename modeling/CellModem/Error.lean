/-!
What can go wrong between the caller and the modem. Each constructor is a cause; the wording is in
`Error.message` alone.
-/

namespace CellModem

/-- Why a dialled connection ended. -/
inductive ConnectionFault where
  | noCarrier
  | noDialtone
  | busy
  | noAnswer
  | unknown
  deriving DecidableEq, Repr

/-- Why a typed command failed after it was accepted for sending. -/
inductive CommandFault where
  | read
  | write
  | timeout
  | invalidResponse
  | aborted
  | parse
  | refused
  | equipment
  | network
  | connection (fault : ConnectionFault)
  | custom
  deriving DecidableEq, Repr

/-- Why a bulletin turned a newcomer away. -/
inductive EnrolmentFault where
  | tooManySubscribers
  | tooManyPublishers
  deriving DecidableEq, Repr

/-- Why a hexadecimal field has no value. -/
inductive HexFault where
  | empty
  | tooLong
  | invalidDigit
  deriving DecidableEq, Repr

inductive Error where
  /-- A bad index, a list without slots, an unknown item or an unusable request. -/
  | invalidArgument
  /-- The stored parameter is of another kind than the one asked for. -/
  | typeMismatch
  /-- A text is too long for its slot. -/
  | storageExhausted
  /-- The destination is shorter than what it should hold. -/
  | bufferTooSmall
  /-- The transport failed, took too little, ended, or the modem refused the command. -/
  | transport
  /-- The response has another shape than expected; asking again may help. -/
  | incomplete
  /-- No final result in time. -/
  | timeout
  | encoding
  | command (fault : CommandFault)
  | enrolment (fault : EnrolmentFault)
  deriving DecidableEq, Repr

def ConnectionFault.label : ConnectionFault → String
  | .noCarrier => "NoCarrier"
  | .noDialtone => "NoDialtone"
  | .busy => "Busy"
  | .noAnswer => "NoAnswer"
  | .unknown => "Unknown"

def CommandFault.label : CommandFault → String
  | .read => "Read"
  | .write => "Write"
  | .timeout => "Timeout"
  | .invalidResponse => "InvalidResponse"
  | .aborted => "Aborted"
  | .parse => "Parse"
  | .refused => "Error"
  | .equipment => "CmeError(Unknown)"
  | .network => "CmsError(Unknown)"
  | .connection fault => "ConnectionError(" ++ fault.label ++ ")"
  | .custom => "Custom"

def EnrolmentFault.label : EnrolmentFault → String
  | .tooManySubscribers => "MaximumSubscribersReached"
  | .tooManyPublishers => "MaximumPublishersReached"

def HexFault.message : HexFault → String
  | .empty => "input string is empty"
  | .tooLong => "input string exceeds 32 bits"
  | .invalidDigit => "invalid digit found in string"

namespace Error

def message : Error → String
  | .invalidArgument => "invalid argument"
  | .typeMismatch => "parameter type mismatch"
  | .storageExhausted => "parameter storage exhausted"
  | .bufferTooSmall => "destination buffer too small"
  | .transport => "transport I/O failure"
  | .incomplete => "incomplete response, try again"
  | .timeout => "response timeout"
  | .encoding => "report encoding failed"
  | .command fault => "atat error: " ++ fault.label
  | .enrolment fault => "subscriber overflow: " ++ fault.label

/-- Whether the failed operation is worth repeating as a whole. -/
def isTransient : Error → Bool
  | .transport | .incomplete | .timeout => true
  | _ => false

/-- A hexadecimal field that has no value is a bad argument, whatever is wrong with it. -/
def ofHexFault (_ : HexFault) : Error :=
  .invalidArgument

end Error

end CellModem
