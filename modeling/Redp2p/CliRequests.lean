import Redp2p.Cli
import Redp2p.StoredCandidates

/-! What stands in the requests that the command line program makes. -/

namespace Redp2p

open ByteString

theorem getValue_setString {N : Type} (obj : JsonObject N) (name text : Bytes) :
    (obj.setString name text).getValue name =
      if isValidUtf8 text then some (.str text) else obj.getValue name := by
  unfold JsonObject.setString initString
  cases isValidUtf8 text with
  | true => exact getValue_setValue obj name _
  | false => rfl

theorem getValue_setString_other {N : Type} (obj : JsonObject N) {name other : Bytes} (hne : other ≠ name)
    (text : Bytes) : (obj.setString other text).getValue name = obj.getValue name := by
  unfold JsonObject.setString
  cases initString (N := N) text with
  | none => rfl
  | some value => exact getValue_setValue_other obj hne value

namespace Cli

theorem getValue_setNumber (obj : JsonObject Rat) (name : String) (n : Nat) :
    (setNumber obj name n).getValue (ascii name) = some (.num (toDouble n : Nat)) :=
  getValue_setValue obj _ _

theorem getValue_setNumber_other (obj : JsonObject Rat) {other : String} {name : Bytes}
    (hne : ascii other ≠ name) (n : Nat) : (setNumber obj other n).getValue name = obj.getValue name :=
  getValue_setValue_other obj hne _

theorem getValue_setCount (obj : JsonObject Rat) (name : String) (set : Bool) (n : Nat) :
    (setCount obj name set n).getValue (ascii name) =
      if set then some (.num (toDouble n : Nat)) else obj.getValue (ascii name) := by
  cases set with
  | true => exact getValue_setNumber obj name n
  | false => rfl

theorem getValue_setCount_other (obj : JsonObject Rat) {other : String} {name : Bytes}
    (hne : ascii other ≠ name) (set : Bool) (n : Nat) :
    (setCount obj other set n).getValue name = obj.getValue name := by
  cases set with
  | true => exact getValue_setNumber_other obj hne n
  | false => rfl

theorem getValue_setText_other (obj : JsonObject Rat) {other : String} {name : Bytes}
    (hne : ascii other ≠ name) (text : Bytes) : (setText obj other text).getValue name = obj.getValue name := by
  unfold setText
  split
  · rfl
  · exact getValue_setString_other obj hne text

theorem getValue_setOptional_other (obj : JsonObject Rat) {other : String} {name : Bytes}
    (hne : ascii other ≠ name) (text : Option Bytes) :
    (setOptional obj other text).getValue name = obj.getValue name := by
  cases text with
  | none => rfl
  | some text => exact getValue_setString_other obj hne text

/-- The address in the request of a client is the specification, when that is a text. -/
theorem clientRequest_addr (client : Client) (spec : Bytes) (a : ClientArgs) (stateDir : Bytes) :
    (clientRequest client spec a stateDir).getValue (ascii "addr") =
      if isValidUtf8 spec then some (.str spec) else none := by
  have hport : ascii (if a.proto = protoTcp then "tcp" else "udp") ≠ ascii "addr" := by
    split <;> decide +kernel
  have hbase : (setText (setNumber (setNumber (JsonObject.setString (JsonObject.setString []
      (ascii "op") (ascii client.cmd)) (ascii "addr") spec) (if a.proto = protoTcp then "tcp" else "udp")
      a.port.toNat) "sweep" a.opts.sweep) "stun" a.opts.stunUrl).getValue (ascii "addr") =
      if isValidUtf8 spec then some (.str spec) else none := by
    rw [getValue_setText_other _ (by decide +kernel), getValue_setNumber_other _ (by decide +kernel),
      getValue_setNumber_other _ hport, getValue_setString, getValue_setString_other _ (by decide +kernel)]
    rfl
  unfold clientRequest
  rw [getValue_setText_other _ (by decide +kernel)]
  cases client with
  | pub => exact (getValue_setText_other _ (by decide +kernel) _).trans hbase
  | con => exact hbase

end Cli

end Redp2p
