import Oclaw.Protocol.Frames

/-!
# Reading and writing frames

`MessageHandler::serialize_frame` and `parse_frame` of `crates/gateway-core/src/message.rs`.
The printer and the reader of `serde_json` are a parameter: what they print and read
are trees, and the text between them is abstract. A reader gives up on texts that are
nested too deep, and reads floats with best effort only.
-/

namespace Oclaw.Gateway

open Oclaw.Lib
open Oclaw.Protocol

/-- The variant of `GatewayError` for texts that are not frames. -/
inductive GatewayError : Type where
  | invalidFrame (message : String)

/-- `serde_json::to_vec` and `from_slice`, as far as they print a tree and read one. The
floats in `Exact` read back as themselves. -/
structure SerdeJson (ω : Type) where
  toVec : Json → ω
  fromSlice : ω → Except String Json
  Exact : UInt64 → Prop

/-- What `serde_json` documents without its features `unbounded_depth` and
`float_roundtrip`. -/
structure SerdeJson.Lawful {ω : Type} (wire : SerdeJson ω) : Prop where
  reads : ∀ j : Json, j.depth < 128 → (∀ bits ∈ j.floats, wire.Exact bits) →
    wire.fromSlice (wire.toVec j) = .ok j
  limit : ∀ j : Json, 128 ≤ j.depth → ∃ e, wire.fromSlice (wire.toVec j) = .error e

section

variable {ω : Type} (wire : SerdeJson ω)

/-- `MessageHandler::serialize_frame`; printing a frame does not fail. -/
def serializeFrame (order : HashOrder) (frame : GatewayFrame) : Except GatewayError ω :=
  .ok (wire.toVec (frame.ser order))

/-- `MessageHandler::parse_frame` -/
def parseFrame (data : ω) : Except GatewayError GatewayFrame :=
  match wire.fromSlice data with
  | .error e => .error (.invalidFrame e)
  | .ok content =>
      match GatewayFrame.de content with
      | some frame => .ok frame
      | none =>
          .error (.invalidFrame "data did not match any variant of untagged enum GatewayFrame")

end

/-! ## Round trip -/

/-- The record of a frame is read from what was written of it. -/
theorem read_record {α : Type} (fields : Rec α α) (tag : String) (norm : α → α)
    (hnorm : ∀ a, fields.get a = norm a) (hnodup : ("type" :: fields.names).Nodup) (a : α) :
    (GatewayFrame.record fields tag).read (.obj ((GatewayFrame.record fields tag).ser a)) =
      some (norm a) := by
  rw [← hnorm]
  exact (GatewayFrame.record fields tag).read_ser hnodup a

/-- No variant is read from a frame with the tag of another one. -/
theorem read_other {α β : Type} (fields : Rec α α) (fields' : Rec β β) {tag tag' : String}
    (h : tag' ≠ tag) (b : β) :
    (GatewayFrame.record fields tag).read (.obj ((GatewayFrame.record fields' tag').ser b)) =
      none :=
  Rec.read_tagged_of_ne fields fields' h b

theorem de_ser (order : HashOrder) (frame : GatewayFrame) :
    GatewayFrame.de (frame.ser order) = some frame.normalize := by
  cases frame with
  | hello f =>
      have hread := read_record (HelloFrame.fields order) "Hello" id (fun _ => rfl)
        (by rw [(HelloFrame.fields_sorted order).1]; decide) f
      have hsorted : (GatewayFrame.record (HelloFrame.fields order) "Hello").read =
          (GatewayFrame.record (HelloFrame.fields .sorted) "Hello").read :=
        Rec.read_tagged_congr (HelloFrame.fields_sorted order).1
          (HelloFrame.fields_sorted order).2 "type" "Hello"
      rw [hsorted] at hread
      simp [GatewayFrame.de, GatewayFrame.ser, hread, GatewayFrame.normalize]
  | helloOk f =>
      have hread := read_record HelloOk.fields "HelloOk" id (fun _ => rfl) (by decide) f
      simp [GatewayFrame.de, GatewayFrame.ser, read_other, hread, GatewayFrame.normalize]
  | sessionCreate f =>
      have hread := read_record SessionCreate.fields "SessionCreate" SessionCreate.normalize
        (fun _ => rfl) (by decide) f
      simp [GatewayFrame.de, GatewayFrame.ser, read_other, hread, GatewayFrame.normalize]
  | sessionCreateOk f =>
      have hread := read_record SessionCreateOk.fields "SessionCreateOk" id
        (fun _ => rfl) (by decide) f
      simp [GatewayFrame.de, GatewayFrame.ser, read_other, hread, GatewayFrame.normalize]
  | sessionStart f =>
      have hread := read_record SessionStart.fields "SessionStart" SessionStart.normalize
        (fun _ => rfl) (by decide) f
      simp [GatewayFrame.de, GatewayFrame.ser, read_other, hread, GatewayFrame.normalize]
  | sessionStartOk f =>
      have hread := read_record SessionStartOk.fields "SessionStartOk" id
        (fun _ => rfl) (by decide) f
      simp [GatewayFrame.de, GatewayFrame.ser, read_other, hread, GatewayFrame.normalize]
  | request f =>
      have hread := read_record RequestFrame.fields "Req" RequestFrame.normalize
        (fun _ => rfl) (by decide) f
      simp [GatewayFrame.de, GatewayFrame.ser, read_other, hread, GatewayFrame.normalize]
  | response f =>
      have hread := read_record ResponseFrame.fields "Res" ResponseFrame.normalize
        (fun _ => rfl) (by decide) f
      simp [GatewayFrame.de, GatewayFrame.ser, read_other, hread, GatewayFrame.normalize]
  | event f =>
      have hread := read_record EventFrame.fields "Event" EventFrame.normalize
        (fun _ => rfl) (by decide) f
      simp [GatewayFrame.de, GatewayFrame.ser, read_other, hread, GatewayFrame.normalize]
  | error f =>
      have hread := read_record ErrorFrame.fields "Error" ErrorFrame.normalize
        (fun _ => rfl) (by decide) f
      simp [GatewayFrame.de, GatewayFrame.ser, read_other, hread, GatewayFrame.normalize]

/-- A frame that is nested less than 128 levels deep and whose floats are read exactly
is read back as it was written, up to `null` in optional fields. -/
theorem frame_round_trip {ω : Type} {wire : SerdeJson ω} (hwire : wire.Lawful)
    (order : HashOrder) (frame : GatewayFrame) (hdepth : (frame.ser order).depth < 128)
    (hfloats : ∀ bits ∈ (frame.ser order).floats, wire.Exact bits) :
    (serializeFrame wire order frame).bind (parseFrame wire) = .ok frame.normalize := by
  have hread := hwire.reads (frame.ser order) hdepth hfloats
  simp [serializeFrame, parseFrame, Except.bind, hread, de_ser]

/-- A printer and reader whose texts are the trees themselves. -/
def treeWire : SerdeJson Json where
  toVec := id
  fromSlice j := if j.depth < 128 then .ok j else .error "recursion limit exceeded"
  Exact _ := True

theorem treeWire_lawful : treeWire.Lawful where
  reads _ hdepth _ := if_pos hdepth
  limit _ hdepth := ⟨_, if_neg (Nat.not_lt.mpr hdepth)⟩

theorem response_round_trip :
    (serializeFrame treeWire .sorted
        (.response ⟨"7", true, some ⟨.null, trivial⟩, none⟩)).bind (parseFrame treeWire) =
      .ok (.response ⟨"7", true, none, none⟩) :=
  frame_round_trip treeWire_lawful .sorted (.response ⟨"7", true, some ⟨.null, trivial⟩, none⟩)
    (by decide) (fun _ _ => trivial)

/-! ## Frames that are nested too deep -/

/-- An empty array within `n` arrays. -/
def nested : ℕ → Json
  | 0 => .arr []
  | n + 1 => .arr [nested n]

theorem inMaps_nested (n : ℕ) : (nested n).InMaps := by
  induction n with
  | zero => trivial
  | succ n ih => exact ⟨ih, trivial⟩

theorem depth_nested (n : ℕ) : (nested n).depth = n + 1 := by
  induction n with
  | zero => rfl
  | succ n ih => simp [nested, Json.depth, Json.depthItems, ih]

/-- The nesting of the parameters counts towards that of the request. -/
theorem depth_request (order : HashOrder) (id method : String) (params : Value) :
    params.val.depth < ((GatewayFrame.request ⟨id, method, some params⟩).ser order).depth := by
  simp [GatewayFrame.ser, GatewayFrame.record, RequestFrame.fields, Rec.tagged, Rec.opt, Rec.field,
    Rec.start, Codec.value, Codec.string, Json.depth, Json.depthFields]

/-- A request whose parameters are 127 arrays in each other can be written and not read. -/
theorem deep_request_refused :
    treeWire.Lawful ∧
      ∃ frame : GatewayFrame, ∀ (ω : Type) (wire : SerdeJson ω) (order : HashOrder),
        wire.Lawful → ∃ e, (serializeFrame wire order frame).bind (parseFrame wire) = .error e := by
  refine ⟨treeWire_lawful, .request ⟨"1", "agent", some ⟨nested 126, inMaps_nested 126⟩⟩, ?_⟩
  intro ω wire order hwire
  have hdepth := depth_request order "1" "agent" ⟨nested 126, inMaps_nested 126⟩
  rw [depth_nested] at hdepth
  obtain ⟨e, he⟩ := hwire.limit _ hdepth
  exact ⟨.invalidFrame e, by simp [serializeFrame, parseFrame, Except.bind, he]⟩

end Oclaw.Gateway
