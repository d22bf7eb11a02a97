import D20Tempest.Characters.SavedText
import D20Tempest.Server.Runs

namespace D20Tempest.Server
open Foundation Components Characters CharacterManager TcpClient

/-- What is left open of a host once its JSON is the parser of the library: how numbers with a fraction are written and
read, the scripts, and the machine. -/
structure Platform where
  number : Rat → Bytes
  strtod : Bytes → Option Rat
  scripts : ScriptStore
  bigEndian : Bool
  cwd : Path

namespace Platform

def host (p : Platform) : Host where
  parse text := (Json.parse p.strtod true text).getD .discarded
  read text := Json.parse p.strtod false text
  number := p.number
  scripts := p.scripts
  bigEndian := p.bigEndian
  cwd := p.cwd
  parse_nul rest := by rw [Json.parse_nul, Option.getD_none]
  parse_utf8 text := by
    cases parses : Json.parse p.strtod true text with
    | none => rfl
    | some j => exact (Json.sound_parse parses).utf8
  parse_blanks before text after first last plain := by rw [Json.parse_blanks p.strtod true first text last plain]

/-- The scripts that the repository ships. -/
def shipped : Platform where
  number _ := []
  strtod _ := none
  scripts := shippedScripts
  bigEndian := false
  cwd := []

section
variable {p : Platform} {j : Json}

theorem utf8_read {text : Bytes} (reads : p.host.read text = some j) : j.utf8 = true := (Json.sound_parse reads).utf8

/-- A document is understood in any layout. -/
theorem parse_written (built : Json.Built (Json.Prints p.number p.strtod) j) {indent : Option Nat} {text : Bytes}
    (written : j.dump p.number indent = some text) {before after : Bytes} (first : ∀ b ∈ before, isBlank b)
    (last : ∀ b ∈ after, isBlank b) : p.host.parse (before ++ text ++ after) = j.normal := by
  show (Json.parse p.strtod true (before ++ text ++ after)).getD .discarded = _
  rw [Json.parse_dump built written first last true, Option.getD_some]

theorem sound_parse {text : Bytes} (accepted : (p.host.parse text).isDiscarded = false) :
    Json.Sound p.strtod (p.host.parse text) := by
  change Json.Sound p.strtod ((Json.parse p.strtod true text).getD .discarded)
  change ((Json.parse p.strtod true text).getD .discarded).isDiscarded = false at accepted
  cases parses : Json.parse p.strtod true text with
  | none =>
      rw [parses] at accepted
      cases accepted
  | some j => exact Json.sound_parse parses

end
end Platform
end D20Tempest.Server
