import Yang.Codec
import Yang.Proofs.Success

/-!
# Payloads

A codec hands the text of a stream to the reader of its format, and writes what the
writer of the format gives for the data.
-/

namespace Yang.Codec

open Instance

variable {c : Context} {nodes : List DataNode}

theorem text_ofText (s : String) (resource : Option String) :
    (Stream.ofText s resource).text = .ok s := by
  rw [Stream.text, Stream.ofText, String.toUTF8_eq_toByteArray, Text.Utf8.decode_toByteArray]

/-- A stream of a text holds the data that the JSON text writes. To what
resource the stream belongs is not looked at. -/
theorem decode_json_ofText (c : Context) (indented : Bool) (s : String)
    (resource : Option String) :
    (json indented).decode c (Stream.ofText s resource) =
      ResourceData.mk none <$> Json.decode c s := by
  rw [decode, text_ofText]
  change (Json.decode c s >>= fun nodes => pure (ResourceData.mk none nodes)) = _
  cases Json.decode c s <;> rfl

theorem decode_xml_ofText (c : Context) (s : String) (resource : Option String) :
    xml.decode c (Stream.ofText s resource) = ResourceData.mk none <$> Xml.decode c s := by
  rw [decode, text_ofText]
  change (Xml.decode c s >>= fun nodes => pure (ResourceData.mk none nodes)) = _
  cases Xml.decode c s <;> rfl

/-- The stream of data is the text of its JSON value. -/
theorem encode_json_eq_ok_iff (indented : Bool) {s : Stream} :
    (json indented).encode c { nodes := nodes } = .ok s ↔
      ∃ v, Json.encodeValue c nodes = .ok v ∧
        s = Stream.ofText (if indented then v.pretty else v.compact) none := by
  change ((Json.encode c indented nodes) >>= fun text => pure (Stream.ofText text none)) = _ ↔ _
  simp only [Json.encode, bind_eq_ok_iff, pure_eq_ok_iff]
  constructor
  · rintro ⟨text, ⟨v, hv, rfl⟩, rfl⟩
    exact ⟨v, hv, rfl⟩
  · rintro ⟨v, hv, rfl⟩
    exact ⟨_, ⟨v, hv, rfl⟩, rfl⟩

theorem encode_xml_eq_ok_iff {s : Stream} :
    xml.encode c { nodes := nodes } = .ok s ↔
      ∃ m, Xml.encodeDocument c nodes = .ok m ∧ s = Stream.ofText m.written none := by
  change (Xml.encode c nodes >>= fun text => pure (Stream.ofText text none)) = _ ↔ _
  simp only [Xml.encode, bind_eq_ok_iff, pure_eq_ok_iff]
  constructor
  · rintro ⟨text, ⟨m, hm, rfl⟩, rfl⟩
    exact ⟨m, hm, rfl⟩
  · rintro ⟨m, hm, rfl⟩
    exact ⟨_, ⟨m, hm, rfl⟩, rfl⟩

end Yang.Codec
