import Courier.Property

/-!
# Failures

Why a call did not become a message, as causes; `Failure.message` and `Cause.message` are the only
places that put them into words.
-/

namespace Courier

/-- What the link to the broker reports when it cannot do its part. -/
inductive LinkFault where
  /-- The connection is no longer open. -/
  | invalidConnectionState
  /-- The channel is no longer open. -/
  | invalidChannelState
  /-- Every channel number is taken. -/
  | channelsLimitReached
  /-- The broker closed the channel. -/
  | protocolError
deriving DecidableEq

/-- Why a collaborator could not do its part. -/
inductive Cause where
  | connectionClosed
  | messageRefused
  | noBodyValue
  | cannotEncode (value : Json.Value)
  | notAcknowledged (channel : Nat)
  | link (fault : LinkFault)

/-- Why a declared call failed. -/
inductive Failure where
  | missingRoutingKey (method : String)
  | missingBodyArgument (method : String)
  | unknownProperty (name : String)
  | invalidPropertyValue (name : String) (fault : ValueFault)
  | channelAcquisition (exchange routingKey : String) (cause : Cause)
  | bodyConversion (argument exchange routingKey : String) (cause : Cause)
  | publish (exchange routingKey : String) (cause : Cause)
  /-- The task that waited for the confirmation died without reporting. -/
  | interrupted (exchange routingKey : String)

/-- A link fault in words. -/
def LinkFault.message : LinkFault → String
  | invalidConnectionState => "the connection is not open"
  | invalidChannelState => "the channel is not open"
  | channelsLimitReached => "no channel number is free"
  | protocolError => "the broker closed the channel"

/-- A cause in words. -/
def Cause.message : Cause → String
  | connectionClosed => "connection is closed"
  | messageRefused => "broker refused the message"
  | noBodyValue => "no value supplied for the message body"
  | cannotEncode value => "cannot encode " ++ value.text
  | notAcknowledged channel =>
    "broker did not acknowledge the message on channel " ++ decimal channel
  | link fault => fault.message

namespace Failure

/-- A failure in words. -/
def message : Failure → String
  | missingRoutingKey method => "no routing key specified for method: " ++ method
  | missingBodyArgument method =>
    "no valid message body argument found for method: " ++ method
  | unknownProperty name =>
    "attempted to set property [" ++ name ++
      "], but could not match the name to any of the basic properties"
  | invalidPropertyValue name fault =>
    "invalid value for property [" ++ name ++ "]: " ++ fault.message
  | channelAcquisition exchange routingKey _ =>
    "could not retrieve a channel from the pool to publish to exchange: [" ++ exchange ++
      "] with routing key [" ++ routingKey ++ "]"
  | bodyConversion argument exchange routingKey _ =>
    "could not convert the body argument [" ++ argument ++ "] to bytes for exchange: [" ++
      exchange ++ "] and routing key [" ++ routingKey ++ "]"
  | publish exchange routingKey _ =>
    "failed to publish a message with exchange: [" ++ exchange ++ "] and routing key [" ++
      routingKey ++ "]"
  | interrupted exchange routingKey =>
    "publish to exchange: [" ++ exchange ++ "] with routing key [" ++ routingKey ++
      "] was interrupted"

/-- The cause behind a failure, where a collaborator gave one. -/
def cause? : Failure → Option Cause
  | channelAcquisition _ _ cause => some cause
  | bodyConversion _ _ _ cause => some cause
  | publish _ _ cause => some cause
  | _ => none

end Failure

end Courier
