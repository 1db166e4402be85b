import PacketLayers.Proofs.Json.Composites
import PacketLayers.Report.Json

namespace PacketLayers.Report

open Json Json.Codec

theorem lawful_tool : toolCodec.Lawful :=
  Fields.lawful_empty
    |>.required lawful_string (by decide)
    |>.required lawful_string (by decide)
    |>.record fun _ => rfl

theorem lawful_input : inputCodec.Lawful :=
  Fields.lawful_empty
    |>.required lawful_word64 (by decide)
    |>.required lawful_string (by decide)
    |>.record fun _ => rfl

theorem lawful_summary : summaryCodec.Lawful :=
  Fields.lawful_empty
    |>.optional lawful_string (by decide)
    |>.optional lawful_string (by decide)
    |>.required lawful_word64 (by decide)
    |>.record fun _ => rfl

theorem lawful_layer : layerCodec.Lawful :=
  Fields.lawful_empty
    |>.required lawful_word64 (by decide)
    |>.required lawful_string (by decide)
    |>.record fun _ => rfl

theorem lawful_ethertype : ethertypeCodec.Lawful :=
  Fields.lawful_empty
    |>.required lawful_word64 (by decide)
    |>.required lawful_word16 (by decide)
    |>.record fun _ => rfl

-- The last field comes first: each one is added before those that follow it.
theorem lawful_report : codec.Lawful :=
  Fields.lawful_empty
    |>.required lawful_word64 (by decide)
    |>.required lawful_ethertype.list (by decide)
    |>.required lawful_layer.list (by decide)
    |>.optional lawful_summary (by decide)
    |>.required lawful_input (by decide)
    |>.required lawful_string (by decide)
    |>.required lawful_tool (by decide)
    |>.required lawful_word32 (by decide)
    |>.record fun _ => rfl

theorem parse_compact (r : Report) : codec.parse (codec.compact r) = .ok r :=
  lawful_report.parse_written .compact r

theorem parse_pretty (r : Report) : codec.parse (codec.pretty r) = .ok r :=
  lawful_report.parse_written (.indented 0) r

/-- Every report is read back from its compact and from its pretty text. So a text that holds a
report may be rewritten in either style first, and rewriting in one style again changes nothing. -/
theorem parse_of_written (r : Report) (text : String) :
    codec.parse (codec.compact r) = .ok r ∧ codec.parse (codec.pretty r) = .ok r ∧
      ∀ style : Report → String,
        (codec.rewrite codec.compact text).bind (codec.rewrite style) = codec.rewrite style text ∧
          (codec.rewrite codec.pretty text).bind (codec.rewrite style) =
            codec.rewrite style text :=
  ⟨parse_compact r, parse_pretty r, fun style =>
    ⟨rewrite_rewrite parse_compact style text, rewrite_rewrite parse_pretty style text⟩⟩

end PacketLayers.Report
