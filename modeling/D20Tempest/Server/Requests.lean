import D20Tempest.Server.Platform

namespace D20Tempest.Server
open Foundation Components Characters TcpClient

/-! ## What a request tells -/

/-- The data as the parser gives it. -/
def TcpClient.Command.normal : Command → Command
  | .data name entity action value => .data name entity action value.normal
  | cmd => cmd

theorem command_normal (docJson : Json) : command docJson.normal = (command docJson).normal := by
  unfold command
  rw [Json.isDiscarded_normal]
  split
  · rfl
  simp only [Json.find_normal]
  cases docJson.find (str "name") with
  | none => rfl
  | some name =>
      cases docJson.find (str "action") with
      | none => rfl
      | some action =>
          cases docJson.find (str "entity") with
          | none => rfl
          | some entity =>
              simp only [Option.map_some, Json.getString_normal]
              cases name.getString <;> cases action.getString <;> cases entity.getString <;> try rfl
              dsimp only
              split
              · rfl
              split
              · rfl
              cases docJson.find (str "data") <;> rfl

section
variable {p : Platform} {j : Json}

/-- The text is the document, in some layout. -/
def Tells (p : Platform) (j : Json) (text : Bytes) : Prop :=
  ∃ indent body before after, j.dump p.number indent = some body ∧ (∀ b ∈ before, isBlank b) ∧ (∀ b ∈ after, isBlank b) ∧
    text = before ++ body ++ after

theorem Tells.parse {text : Bytes} (tells : Tells p j text) (built : Json.Built (Json.Prints p.number p.strtod) j) :
    p.host.parse text = j.normal := by
  obtain ⟨indent, body, before, after, written, first, last, rfl⟩ := tells
  exact Platform.parse_written built written first last

end

end D20Tempest.Server
