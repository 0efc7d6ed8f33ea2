import PulseProcessor.Bridge.Frame

/-!
# Agents

An agent owns a device and answers the requests that come over a connection, until its peer hangs
up or sends what is no request. What it has not received in full has no effect.
-/

namespace PulseProcessor.Bridge

/-- What has become of a connection and of the device behind it. -/
structure Served (σ : Type) where
  state : σ
  /-- All bytes sent to the peer. -/
  reply : List UInt8
  outcome : Except DeviceError Unit

/-- Answers the bytes that a peer sends before it hangs up. -/
def serve {σ : Type} (device : Device σ) (s : σ) (bytes : List UInt8) : Served σ :=
  if bytes.isEmpty then ⟨s, [], .ok ()⟩
  else
    match hr : Incoming.ofBytes bytes with
    | .incomplete => ⟨s, [], .error (.link .unexpectedEnd)⟩
    | .refused fault => ⟨s, [], .error (.protocol fault)⟩
    | .request r rest =>
      have := Incoming.length_lt_of_ofBytes hr
      match device.handle s r with
      | (.error .crashed, s) => ⟨s, [], .error .crashed⟩
      | (answer, s) =>
        let served := serve device s rest
        { served with reply := Bridge.reply r answer ++ served.reply }
termination_by bytes.length

end PulseProcessor.Bridge
