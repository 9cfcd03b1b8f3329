import Geocast.Log.Settings
import Geocast.Packet.Wire

/-!
# Log settings in wire form

A record of texts, each of which may be missing. Where a text means nothing, the record is refused.
-/
namespace Geocast.Wire

def decodeLogTarget : Decoder LogTarget := fun v => (decodeText v).map LogTarget.ofText

def decodeSeverity : Decoder Severity := fun v => do
  match Severity.named? (← decodeText v) with
  | some s => pure s
  | none => throw .malformed

/-- The value of a field that may be missing. -/
def getD {α : Type} (members : List (String × Json)) (name : String) (decode : Decoder α)
    (default : α) : Except WireError α :=
  match Json.get? name members with
  | some v => decode v
  | none => .ok default

def decodeLogSettings : Decoder LogSettings := fun v => do
  let ms ← recordOf [optionalField "to" decodeLogTarget, optionalField "level" decodeSeverity,
    optionalField "dir" decodeText, optionalField "file" decodeText] v
  let standard := LogSettings.standard
  pure ⟨← getD ms "to" decodeLogTarget standard.target,
    ← getD ms "level" decodeSeverity standard.threshold,
    ← getD ms "dir" decodeText standard.directory, ← getD ms "file" decodeText standard.file⟩

end Geocast.Wire
