import SmartDashboard.Direct.Types

/-!
# Transport vocabulary

What every `IDashboardTransport` hands to the window: an update of one variable or a change of its
connection state. A `QString` is its bytes in UTF-8.
-/

namespace SmartDashboard.Transport

open Direct (ByteString DoubleBits)

inductive ConnectionState
  | disconnected
  | connecting
  | connected
  | stale
  deriving DecidableEq, Repr

inductive TransportKind
  | direct
  | plugin
  | replay
  deriving DecidableEq, Repr

/-- The alternatives of a `QVariant` that a transport fills in. -/
inductive Variant
  | invalid
  | bool (value : Bool)
  | double (value : DoubleBits)
  | string (value : ByteString)
  | stringList (value : List ByteString)
  deriving DecidableEq, Repr

structure VariableUpdate where
  key : ByteString
  valueType : Int32 := 0
  value : Variant := .invalid
  seq : UInt64 := 0
  deriving DecidableEq, Repr

end SmartDashboard.Transport
